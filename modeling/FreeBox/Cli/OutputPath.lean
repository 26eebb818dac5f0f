import FreeBox.Cli.Names
import FreeBox.Lib.Segments
import FreeBox.Lib.Utf8

/-!
# Where a download is written

`resolve_output_path` takes the last segment of the remote name as the name of the file. The
remote name is any text that the server or another client has stored.

A path is a path on Unix, where only `/` separates. On Windows `PathBuf::join` also splits at
`\` and lets a drive or a root replace the directory; there the results are about the name
that is joined.

Results:
* `defaultFileName_of_decodedName`: the default name is the last segment.
* `confined_of_name_iff`: on Unix the path is one normal component in the requested directory,
  unless the remote name ends in `.` or `..`.
* `windows_defaultFileName_iff`: on Windows the name must have no `\` and no drive either.
* `name_escapes`: the name `..`.
* `fileName_eq_some`: the file name of a local path is a normal component.
-/

namespace FreeBox.Cli

open FreeBox.Lib

/-! ## Bytes of a name -/

theorem asBytes_eq_textEncode (s : String) : asBytes s = Ecma.textEncode s.toList := by
  have h : s.toByteArray = s.toList.utf8Encode := String.utf8Encode_toList.symm
  show s.toByteArray.data.toList = _
  rw [h, List.utf8Encode, List.data_toByteArray]
  rfl

theorem asBytes_injective : Function.Injective asBytes := by
  intro s t h
  have hs := fromUtf8_asBytes s
  rw [h, fromUtf8_asBytes] at hs
  exact (Option.some.inj hs).symm

theorem asBytes_of_fromUtf8 {b : Bytes} {s : String} (h : fromUtf8 b = some s) : asBytes s = b := by
  unfold fromUtf8 String.fromUTF8? at h
  split at h
  · obtain rfl := Option.some.inj h
    rfl
  · cases h

theorem separator_mem_asBytes {s : String} : separator ∈ asBytes s ↔ '/' ∈ s.toList := by
  rw [asBytes_eq_textEncode]
  constructor
  · intro h
    exact Ecma.mem_textEncode (by decide) h
  · intro h
    exact List.mem_flatMap.mpr ⟨'/', h, by decide⟩

/-! ## Components -/

/-- A normal component of a path, `Component::Normal`. -/
structure NormalComponent (c : Bytes) : Prop where
  ne_nil : c ≠ []
  no_separator : separator ∉ c
  ne_dot : c ≠ [46]
  ne_dots : c ≠ [46, 46]

theorem fileName_eq_some {path : PathBuf} {c : Bytes} (h : fileName path = some c) :
    NormalComponent c := by
  obtain ⟨hlast, hdots⟩ := Option.filter_eq_some_iff.mp h
  obtain ⟨hmem, hkeep⟩ := List.mem_filter.mp (List.mem_of_getLast? hlast)
  obtain ⟨hne, hdot⟩ := of_decide_eq_true hkeep
  exact ⟨hne, not_mem_of_mem_splitOn hmem, hdot, of_decide_eq_true hdots⟩

theorem join_eq {base c : PathBuf} (h : separator ∉ c) :
    join base c =
      if base = [] ∨ base.getLast? = some separator then base ++ c
      else base ++ separator :: c := by
  have hrel : ¬ c.head? = some separator := fun heq => h (List.mem_of_head? heq)
  rw [join, if_neg hrel]

theorem join_inj {base c d : PathBuf} (hc : separator ∉ c) (hd : separator ∉ d)
    (h : join base c = join base d) : c = d := by
  rw [join_eq hc, join_eq hd] at h
  split_ifs at h
  · exact List.append_cancel_left h
  · exact List.cons_injective (List.append_cancel_left h)

/-! ## The remote name -/

/-- The destinations that stand for the root. -/
def RootDestination (destination : String) : Prop :=
  trimEndMatches '/' destination = "" ∨ trimEndMatches '/' destination = "remote:" ∨
    trimEndMatches '/' destination = "remote://"

theorem remoteName_eq_ok {destination name file : String} {path : PathBuf}
    (hfile : (fileName path).bind fromUtf8 = some file)
    (hname : remoteName destination path = .ok name) :
    RootDestination destination ∧ name = file ∨
      ¬ RootDestination destination ∧ name = trimEndMatches '/' destination ++ "/" ++ file := by
  unfold remoteName at hname
  rw [hfile] at hname
  dsimp only at hname
  split_ifs at hname with hroot
  · exact .inl ⟨hroot, (Except.ok.inj hname).symm⟩
  · exact .inr ⟨hroot, (Except.ok.inj hname).symm⟩

theorem toList_directory (directory file : String) :
    (directory ++ "/" ++ file).toList = directory.toList ++ '/' :: file.toList := by
  rw [String.toList_append, String.toList_append, List.append_assoc]
  rfl

/-! ## The default name -/

theorem defaultFileName_of_decodedName {encryptedName name : String}
    (h : decodedName encryptedName = some name) :
    defaultFileName encryptedName =
      .ok (((lastPart '/' name.toList).map String.ofList).getD "download.bin") := by
  obtain ⟨bytes, hbytes, hname⟩ := Option.bind_eq_some_iff.mp h
  have hne : ((fun part : String => decide (part ≠ "")) ∘ String.ofList) =
      fun part => decide (part ≠ []) := by
    funext part
    simp [String.ofList_eq_empty_iff]
  unfold defaultFileName
  rw [hbytes]
  dsimp only
  rw [hname]
  dsimp only
  rw [rsplit, List.find?_map, hne, lastPart, List.getLast?_filter]

theorem decodedName_of_defaultFileName {encryptedName file : String}
    (h : defaultFileName encryptedName = .ok file) :
    ∃ name, decodedName encryptedName = some name := by
  unfold defaultFileName at h
  unfold decodedName
  cases hbytes : standardDecode encryptedName with
  | none => rw [hbytes] at h; cases h
  | some bytes =>
    rw [hbytes] at h
    cases hname : fromUtf8 bytes with
    | none => dsimp only at h; rw [hname] at h; cases h
    | some name => exact ⟨name, hname⟩

/-- The remote name ends in the segment `.` or `..`, apart from separators behind it. -/
def EndsInDots (name : String) : Prop :=
  EndsIn '/' ['.'] name.toList ∨ EndsIn '/' ['.', '.'] name.toList

/-- The default name is a normal component unless it is `.` or `..`, that is, unless the
    remote name ends so. -/
theorem normal_defaultFileName {encryptedName name file : String}
    (hname : decodedName encryptedName = some name)
    (hfile : defaultFileName encryptedName = .ok file) :
    separator ∉ asBytes file ∧ (NormalComponent (asBytes file) ↔ ¬ EndsInDots name) := by
  rw [defaultFileName_of_decodedName hname] at hfile
  obtain rfl := Except.ok.inj hfile
  have hdots : ∀ {part}, part ≠ [] → '/' ∉ part →
      (EndsIn '/' part name.toList ↔ lastPart '/' name.toList = some part) := by
    intro part hne hpart
    rw [lastPart_eq_some_iff]
    exact ⟨fun h => ⟨hne, hpart, h⟩, fun h => h.2.2⟩
  rw [EndsInDots, hdots (by decide) (by decide), hdots (by decide) (by decide)]
  cases hlast : lastPart '/' name.toList with
  | none =>
    have hnormal : NormalComponent (asBytes "download.bin") :=
      ⟨by decide, by decide, by decide, by decide⟩
    exact ⟨by decide, fun _ => by simp, fun _ => hnormal⟩
  | some part =>
    obtain ⟨hne, hpart, -⟩ := lastPart_eq_some_iff.mp hlast
    have hsep : separator ∉ asBytes (String.ofList part) := by
      rw [separator_mem_asBytes, String.toList_ofList]
      exact hpart
    have heq : ∀ s : String, asBytes (String.ofList part) = asBytes s ↔ part = s.toList := by
      intro s
      rw [asBytes_injective.eq_iff]
      constructor
      · intro h
        rw [← h, String.toList_ofList]
      · intro h
        rw [h, String.ofList_toList]
    refine ⟨hsep, ?_, ?_⟩
    · intro h hends
      rcases hends with hd | hd
      · exact h.ne_dot ((heq ".").mpr (Option.some.inj hd))
      · exact h.ne_dots ((heq "..").mpr (Option.some.inj hd))
    · intro h
      refine ⟨?_, hsep, ?_, ?_⟩
      · intro hnil
        exact hne ((heq "").mp hnil)
      · intro hdot
        exact h (.inl (congrArg some ((heq ".").mp hdot)))
      · intro hdots
        exact h (.inr (congrArg some ((heq "..").mp hdots)))

/-! ## The path -/

/-- `path` is one component of the requested directory or, when no output is requested, of
    the current one. A requested file is as it was requested. -/
def Confined (isDir : PathBuf → Bool) (output : Option PathBuf) (path : PathBuf) : Prop :=
  match output with
  | some dir => isDir dir → ∃ c, NormalComponent c ∧ path = join dir c
  | none => NormalComponent path

/-- The path for the default name `c`. -/
def outputPath (isDir : PathBuf → Bool) (output : Option PathBuf) (c : Bytes) : PathBuf :=
  match output with
  | some path => if isDir path then join path c else path
  | none => c

theorem resolveOutputPath_eq (isDir : PathBuf → Bool) (output : Option PathBuf)
    (encryptedName : String) :
    resolveOutputPath isDir output encryptedName =
      (defaultFileName encryptedName).map fun file => outputPath isDir output (asBytes file) := by
  unfold resolveOutputPath
  cases defaultFileName encryptedName with
  | error e => rfl
  | ok file => cases output <;> rfl

theorem confined_outputPath_iff {isDir : PathBuf → Bool} {output : Option PathBuf} {c : Bytes}
    (hc : separator ∉ c) :
    Confined isDir output (outputPath isDir output c) ↔
      ((∀ dir, output = some dir → isDir dir = true) → NormalComponent c) := by
  cases output with
  | none => simp [Confined, outputPath]
  | some dir =>
    dsimp only [Confined, outputPath]
    constructor
    · intro h hall
      have hdir : isDir dir = true := hall dir rfl
      obtain ⟨d, hd, heq⟩ := h hdir
      rw [if_pos hdir] at heq
      rw [join_inj hc hd.no_separator heq]
      exact hd
    · intro h hdir
      refine ⟨c, h fun dir' heq => ?_, if_pos hdir⟩
      rw [← Option.some.inj heq]
      exact hdir

/-- On Unix, for every name that the server may answer. The name decides nothing when the
    requested output is a file. -/
theorem confined_of_name_iff (isDir : PathBuf → Bool) (output : Option PathBuf)
    (encryptedName : String) :
    (∀ path, resolveOutputPath isDir output encryptedName = .ok path →
        Confined isDir output path) ↔
      ((∀ dir, output = some dir → isDir dir = true) →
        ∀ name, decodedName encryptedName = some name → ¬ EndsInDots name) := by
  constructor
  · intro h hdir name hname
    have hfile := defaultFileName_of_decodedName hname
    obtain ⟨hsep, hnormal⟩ := normal_defaultFileName hname hfile
    simp only [resolveOutputPath_eq, hfile] at h
    exact hnormal.mp ((confined_outputPath_iff hsep).mp (h _ rfl) hdir)
  · intro h path hpath
    rw [resolveOutputPath_eq] at hpath
    cases hfile : defaultFileName encryptedName with
    | error e => rw [hfile] at hpath; cases hpath
    | ok file =>
      rw [hfile] at hpath
      obtain rfl := Except.ok.inj hpath
      obtain ⟨name, hname⟩ := decodedName_of_defaultFileName hfile
      obtain ⟨hsep, hnormal⟩ := normal_defaultFileName hname hfile
      exact (confined_outputPath_iff hsep).mpr fun hdir => hnormal.mpr (h hdir name hname)

/-! ## Windows -/

/-- The text begins with a drive, as `C:`. -/
def hasDrive : List Char → Bool
  | letter :: colon :: _ => letter.isAlpha && colon = ':'
  | _ => false

/-- The text has no syntax of paths that only Windows knows: no `\` and no drive. -/
structure NoWindowsSyntax (part : List Char) : Prop where
  no_backslash : Char.ofNat 92 ∉ part
  no_drive : hasDrive part = false

/-- A normal component of a path on Windows. -/
structure WindowsComponent (file : String) : Prop extends NormalComponent (asBytes file),
  NoWindowsSyntax file.toList

/-- On Windows the default name is a normal component unless the last segment of the remote
    name is `.` or `..`, has a `\` or begins with a drive. -/
theorem windows_defaultFileName_iff (encryptedName : String) :
    (∀ file, defaultFileName encryptedName = .ok file → WindowsComponent file) ↔
      ∀ name, decodedName encryptedName = some name → ¬ EndsInDots name ∧
        ∀ part, EndsIn '/' part name.toList → '/' ∉ part → NoWindowsSyntax part := by
  constructor
  · intro h name hname
    have hfile := defaultFileName_of_decodedName hname
    have hwindows := h _ hfile
    refine ⟨(normal_defaultFileName hname hfile).2.mp hwindows.toNormalComponent, ?_⟩
    intro part hends hpart
    by_cases hne : part = []
    · rw [hne]
      exact ⟨List.not_mem_nil, rfl⟩
    · rw [lastPart_eq_some_iff.mpr ⟨hne, hpart, hends⟩] at hwindows
      have hsyntax := hwindows.toNoWindowsSyntax
      rwa [Option.map_some, Option.getD_some, String.toList_ofList] at hsyntax
  · intro h file hfile
    obtain ⟨name, hname⟩ := decodedName_of_defaultFileName hfile
    obtain ⟨hdots, hsyntax⟩ := h name hname
    refine ⟨(normal_defaultFileName hname hfile).2.mpr hdots, ?_⟩
    rw [defaultFileName_of_decodedName hname] at hfile
    obtain rfl := Except.ok.inj hfile
    cases hlast : lastPart '/' name.toList with
    | none => exact ⟨by decide, by decide⟩
    | some part =>
      obtain ⟨-, hpart, hends⟩ := lastPart_eq_some_iff.mp hlast
      rw [Option.map_some, Option.getD_some, String.toList_ofList]
      exact hsyntax part hends hpart

/-- On Unix the path is confined, and on Windows the name that is joined is one component,
    under these conditions on the remote name. -/
theorem confined_iff (isDir : PathBuf → Bool) (output : Option PathBuf) (encryptedName : String) :
    ((∀ path, resolveOutputPath isDir output encryptedName = .ok path →
        Confined isDir output path) ↔
      ((∀ dir, output = some dir → isDir dir = true) →
        ∀ name, decodedName encryptedName = some name → ¬ EndsInDots name)) ∧
    ((∀ file, defaultFileName encryptedName = .ok file → WindowsComponent file) ↔
      ∀ name, decodedName encryptedName = some name → ¬ EndsInDots name ∧
        ∀ part, EndsIn '/' part name.toList → '/' ∉ part → NoWindowsSyntax part) :=
  ⟨confined_of_name_iff isDir output encryptedName, windows_defaultFileName_iff encryptedName⟩

/-- The remote name `..` and the output directory `dl`. -/
theorem name_escapes :
    resolveOutputPath (fun _ => true) (some (asBytes "dl")) "Li4=" = .ok (asBytes "dl/..") ∧
      ¬ Confined (fun _ => true) (some (asBytes "dl")) (asBytes "dl/..") ∧
      resolveOutputPath (fun _ => true) none "Li4=" = .ok (asBytes "..") ∧
      ¬ Confined (fun _ => true) none (asBytes "..") := by
  refine ⟨by decide, ?_, by decide, fun h => h.ne_dots (by decide)⟩
  intro h
  obtain ⟨c, hc, heq⟩ := h rfl
  have hjoin : join (asBytes "dl") (asBytes "..") = join (asBytes "dl") c := heq
  exact hc.ne_dots (join_inj (by decide) hc.no_separator hjoin).symm

end FreeBox.Cli
