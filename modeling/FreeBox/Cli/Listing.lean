import FreeBox.Cli.OutputPath
import FreeBox.Cli.Transfer
import FreeBox.Lib.Trim
import FreeBox.Server.Paging

/-!
# Files by name

Model of `resolve_name_to_id` in `apps/cli/src/commands/download.rs` and of `run` in `list.rs`,
without the long format. Both send one list request without parameters, and read the names in
the answer.

Results:
* `lookup_complete_iff`: whether a file is found by its name, however the server orders files
  with the same time.
* `lookup_printed_name`: which file the name that `ls` prints denotes.
* `own_destination_iff`: whether an uploaded file is listed under its own destination.
-/

namespace FreeBox.Cli

open FreeBox.Lib FreeBox.Crypto FreeBox.Server

/-! ## `download` -/

/-- Without the scheme and the leading slashes. -/
def normalise (name : String) : String :=
  trimStartMatches "/" (trimStartMatches "remote://" name)

/-- The test of one file in `resolve_name_to_id`; a name that cannot be decoded is empty. -/
def denotes (name encryptedName : String) : Bool :=
  let needle := normalise name
  let decodedNorm := normalise ((decodedName encryptedName).getD "")
  decodedNorm = needle ∨ endsWith ("/" ++ needle) decodedNorm

/-- The error of a name that no file has. -/
def noFile (name : String) : String :=
  "no file named '" ++ name ++ "' found — use `fbx ls` to list files"

/-- `resolve_name_to_id` with the answer to its request. -/
def resolveName (name : String) (files : List FileMetaResponse) : Except String Uuid :=
  match files.find? fun file => denotes name file.encryptedName with
  | some file => .ok file.fileId
  | none => .error (noFile name)

/-- `download::resolve_name_to_id`. -/
def resolveNameToId (userId : Uuid) (rank : Uuid → ℕ) (name : String) : Client Uuid := do
  let list ← fetch fun w => .ok (listFiles w userId { limit := none, offset := none } rank)
  MonadExcept.ofExcept (resolveName name list.files)

/-! ## `ls` -/

/-- `list::decode_name`. -/
def decodeName (encryptedName : String) : String := (decodedName encryptedName).getD encryptedName

def listPrefix (path : String) : String :=
  trimEndMatches '/' (trimStartMatches "remote://" path)

/-- The files whose names are printed. -/
def shown (path : String) (files : List FileMetaResponse) : List FileMetaResponse :=
  files.filter fun file =>
    ¬ (listPrefix path ≠ "" ∧ ¬ startsWith (listPrefix path) (decodeName file.encryptedName))

/-- The lines that `list::run` prints. -/
def listRun (path : String) (files : List FileMetaResponse) : List String :=
  if files = [] then ["No files."]
  else if shown path files = [] then ["No files matching '" ++ path ++ "'."]
  else (shown path files).map fun file => decodeName file.encryptedName

/-! ## Names that denote files -/

theorem resolveName_eq_error_iff {name : String} {files : List FileMetaResponse} :
    resolveName name files = .error (noFile name) ↔
      ∀ file ∈ files, denotes name file.encryptedName = false := by
  unfold resolveName
  cases h : files.find? fun file => denotes name file.encryptedName with
  | none =>
    rw [List.find?_eq_none] at h
    exact iff_of_true rfl fun file hfile => Bool.eq_false_iff.mpr (h file hfile)
  | some file =>
    refine iff_of_false (fun herror => by cases herror) fun hall => ?_
    have hfound := List.find?_some h
    rw [hall file (List.mem_of_find?_eq_some h)] at hfound
    cases hfound

theorem resolveNameToId_eq (userId : Uuid) (rank : Uuid → ℕ) (name : String) (w : World) :
    (resolveNameToId userId rank name w).1 =
      resolveName name (listFiles w userId { limit := none, offset := none } rank).files := by
  show ((MonadExcept.ofExcept (resolveName name
    (listFiles w userId { limit := none, offset := none } rank).files) : Client Uuid) w).1 = _
  cases resolveName name (listFiles w userId { limit := none, offset := none } rank).files with
  | error e => rfl
  | ok id => rfl

/-- The page that is requested without parameters. -/
theorem listFiles_default (w : World) (userId : Uuid) (rank : Uuid → ℕ) :
    (listFiles w userId { limit := none, offset := none } rank).files =
      ((activeFiles w userId rank).take 50).map fun e => fileMeta e.1 e.2 := rfl

/-- Files that may stand before a file with the time `t`: the active files of the user that are
    not older and that the name does not denote. -/
def othersBefore (w : World) (userId : Uuid) (name : String) (t : ℕ) : ℕ :=
  Table.countWhere (fun _ row => row.active userId &&
    (!denotes name row.encryptedName && decide (t ≤ row.createdAt))) w.files

/-- Whether `resolve_name_to_id` finds a file by its name whenever the user has one. -/
theorem lookup_complete_iff (w : World) (userId : Uuid) (name : String) :
    (∀ rank, (resolveNameToId userId rank name w).1 = .error (noFile name) →
        ∀ id row, w.files.lookup id = some row → row.active userId = true →
          denotes name row.encryptedName = false) ↔
      ((∃ id row, w.files.lookup id = some row ∧ row.active userId = true ∧
          denotes name row.encryptedName = true) →
        ∃ id row, w.files.lookup id = some row ∧ row.active userId = true ∧
          denotes name row.encryptedName = true ∧
            othersBefore w userId name row.createdAt < 50) := by
  have hcount : ∀ t, (Table.selectWhere (fun _ row => row.active userId) w.files).countP
      (fun e : Uuid × FileRow => ¬ denotes name e.2.encryptedName = true ∧ t ≤ e.2.createdAt) =
        othersBefore w userId name t := by
    intro t
    rw [Table.countP_selectWhere, othersBefore]
    refine Table.countWhere_congr fun id row _ => ?_
    simp
  have hfirst := exists_mem_take_iff (fun e : Uuid × FileRow => e.2.createdAt)
    (Table.selectWhere (fun _ row => row.active userId) w.files)
    (fun e => denotes name e.2.encryptedName) 50
  simp only [hcount] at hfirst
  have hfound : ∀ rank, (resolveNameToId userId rank name w).1 ≠ .error (noFile name) ↔
      ∃ e ∈ (activeFiles w userId rank).take 50, denotes name e.2.encryptedName = true := by
    intro rank
    rw [resolveNameToId_eq, ne_eq, resolveName_eq_error_iff, listFiles_default]
    simp only [List.forall_mem_map, not_forall, Bool.not_eq_false, fileMeta, exists_prop]
  constructor
  · intro h hsome
    obtain ⟨id, row, hrow, hactive, hname⟩ := hsome
    obtain ⟨e, he, hdenotes, hlt⟩ := hfirst.mp fun l hl => by
      obtain ⟨rank, rfl⟩ := exists_rank hl
      refine (hfound rank).mp fun herror => ?_
      rw [h rank herror id row hrow hactive] at hname
      cases hname
    obtain ⟨hlookup, hactive'⟩ := Table.mem_selectWhere.mp he
    exact ⟨e.1, e.2, hlookup, hactive', hdenotes, hlt⟩
  · intro h rank herror id row hrow hactive
    by_contra hname
    obtain ⟨id', row', hrow', hactive', hname', hlt⟩ :=
      h ⟨id, row, hrow, hactive, Bool.eq_true_of_not_eq_false hname⟩
    refine (hfound rank).mpr ?_ herror
    exact hfirst.mpr ⟨(id', row'), Table.mem_selectWhere.mpr ⟨hrow', hactive'⟩, hname', hlt⟩ _
      (arrangement_orderBy rank FileRow.createdAt _ _)

/-- One file named `old`, and 50 files that were created after it. -/
def runFifty : World :=
  let row : FileRow :=
    { userId := ⟨1⟩, totalChunks := 1, sizeBytes := 1, encryptedKeyEnvelope := "key",
      contentHash := "hash", encryptedName := "", createdAt := 1, deletedAt := none,
      total_pos := Int.one_pos, total_lt := one_lt_total, size_nonneg := Int.one_nonneg }
  { World.empty with
    files := (List.range 50).foldl (fun files i => files.insert ⟨.ofNat 128 (i + 3)⟩ row)
      (AList.singleton ⟨2⟩ { row with encryptedName := "b2xk", createdAt := 0 }) }

theorem lookup_misses_file :
    (resolveNameToId ⟨1⟩ (fun _ => 0) "old" runFifty).1 = .error (noFile "old") ∧
      ∃ row, runFifty.files.lookup ⟨2⟩ = some row ∧ row.active ⟨1⟩ = true ∧
        decodedName row.encryptedName = some "old" := by
  refine ⟨?_, ?_⟩
  · rw [resolveNameToId_eq, resolveName_eq_error_iff]
    decide +kernel
  · have hrow : (runFifty.files.lookup ⟨2⟩).any (fun row => row.active ⟨1⟩ &&
        decide (decodedName row.encryptedName = some "old")) = true := by
      decide +kernel
    obtain ⟨row, hlookup, hactive⟩ := (Option.any_eq_true _ _).mp hrow
    obtain ⟨hactive, hname⟩ := Bool.and_eq_true_iff.mp hactive
    exact ⟨row, hlookup, hactive, of_decide_eq_true hname⟩

theorem denotes_self {file : FileMetaResponse} (h : (decodedName file.encryptedName).isSome) :
    denotes (decodeName file.encryptedName) file.encryptedName = true := by
  obtain ⟨name, hname⟩ := Option.isSome_iff_exists.mp h
  simp [denotes, decodeName, hname]

theorem resolveName_eq_ok_iff {name : String} {files : List FileMetaResponse} {id : Uuid} :
    resolveName name files = .ok id ↔
      ∃ found, files.find? (fun f => denotes name f.encryptedName) = some found ∧
        found.fileId = id := by
  unfold resolveName
  cases files.find? fun f => denotes name f.encryptedName with
  | none => simp
  | some found => simp

/-- The first file that is found is the one in the middle exactly when none is found before
    it. -/
theorem find?_middle_iff {p : FileMetaResponse → Bool} {front back : List FileMetaResponse}
    {file : FileMetaResponse} (hself : p file = true)
    (hids : ((front ++ file :: back).map FileMetaResponse.fileId).Nodup) :
    (∃ found, (front ++ file :: back).find? p = some found ∧ found.fileId = file.fileId) ↔
      ∀ f ∈ front, p f = false := by
  rw [List.find?_append, List.find?_cons_of_pos hself]
  constructor
  · intro h f hf
    obtain ⟨found, hfound, hid⟩ := h
    by_contra hp
    obtain ⟨g, hg⟩ := Option.isSome_iff_exists.mp
      (List.find?_isSome.mpr ⟨f, hf, Bool.eq_true_of_not_eq_false hp⟩)
    rw [hg, Option.some_or] at hfound
    rw [List.map_append, List.map_cons] at hids
    have hmem : g.fileId ∈ front.map FileMetaResponse.fileId :=
      List.mem_map_of_mem (List.mem_of_find?_eq_some hg)
    refine (List.nodup_append.mp hids).2.2 _ hmem _ List.mem_cons_self ?_
    rw [Option.some.inj hfound]
    exact hid
  · intro h
    have hnone : front.find? p = none :=
      List.find?_eq_none.mpr fun f hf => Bool.eq_false_iff.mp (h f hf)
    rw [hnone, Option.none_or]
    exact ⟨file, rfl, rfl⟩

/-- The name that `ls` prints for a file, if its name can be decoded, denotes the first file of
    the listing with this name or with a name that ends in it. -/
theorem lookup_printed_name (front back : List FileMetaResponse) (file : FileMetaResponse)
    (hdecodes : (decodedName file.encryptedName).isSome) :
    (∃ pre found post, front ++ file :: back = pre ++ found :: post ∧
      (∀ f ∈ pre, denotes (decodeName file.encryptedName) f.encryptedName = false) ∧
      denotes (decodeName file.encryptedName) found.encryptedName = true ∧
      resolveName (decodeName file.encryptedName) (front ++ file :: back) = .ok found.fileId) ∧
    (((front ++ file :: back).map FileMetaResponse.fileId).Nodup →
      (resolveName (decodeName file.encryptedName) (front ++ file :: back) = .ok file.fileId ↔
        ∀ f ∈ front, denotes (decodeName file.encryptedName) f.encryptedName = false)) := by
  have hself := denotes_self hdecodes
  constructor
  · have hmem : file ∈ front ++ file :: back := List.mem_append_right front List.mem_cons_self
    have hsome : ((front ++ file :: back).find? fun f =>
        denotes (decodeName file.encryptedName) f.encryptedName).isSome = true := by
      rw [List.find?_isSome]
      exact ⟨file, hmem, hself⟩
    obtain ⟨found, hfind⟩ := Option.isSome_iff_exists.mp hsome
    obtain ⟨hfound, pre, post, hsplit, hpre⟩ := List.find?_eq_some_iff_append.mp hfind
    refine ⟨pre, found, post, hsplit, fun f hf => ?_, hfound,
      resolveName_eq_ok_iff.mpr ⟨found, hfind, rfl⟩⟩
    simpa using hpre f hf
  · intro hids
    rw [resolveName_eq_ok_iff]
    exact find?_middle_iff
      (p := fun f => denotes (decodeName file.encryptedName) f.encryptedName) hself hids

/-- A file with the given identifier and stored name. -/
def runListed (fileId : Uuid) (encryptedName : String) : FileMetaResponse where
  fileId
  encryptedName
  sizeBytes := 1
  totalChunks := 1
  encryptedKeyEnvelope := ""
  contentHash := ""
  createdAt := 0

/-- A file with another before it. -/
theorem lookup_printed_name_one :
    resolveName (decodeName "bi50eHQ=") [runListed ⟨1⟩ "Yi50eHQ=", runListed ⟨2⟩ "bi50eHQ="] =
      .ok ⟨2⟩ := by
  have hdecodes : (decodedName "bi50eHQ=").isSome := by decide +kernel
  obtain ⟨-, hown⟩ := lookup_printed_name [runListed ⟨1⟩ "Yi50eHQ="] [] (runListed ⟨2⟩ "bi50eHQ=")
    hdecodes
  exact (hown (by decide)).mpr fun f hf => by
    rw [List.mem_singleton.mp hf]
    decide +kernel

/-- Two files with different names, of which the first is found by the name of the second. -/
theorem lookup_other_file :
    decodeName "YS9uLnR4dA==" = "a/n.txt" ∧ decodeName "bi50eHQ=" = "n.txt" ∧
      Uuid.parseStr "n.txt".toList = none ∧
      resolveName "n.txt" [runListed ⟨1⟩ "YS9uLnR4dA==", runListed ⟨2⟩ "bi50eHQ="] = .ok ⟨1⟩ := by
  decide +kernel

/-! ## The prefix of a listing -/

theorem startsWith_iff {lead s : String} : startsWith lead s = true ↔ lead.toList <+: s.toList := by
  rw [startsWith, List.isPrefixOf_iff_prefix]

theorem decodeName_standardEncode (name : String) :
    decodeName (standardEncode (asBytes name)) = name := by
  rw [decodeName, decodedName_standardEncode, Option.getD_some]

theorem mem_shown {path : String} {files : List FileMetaResponse} {file : FileMetaResponse}
    (hmem : file ∈ files) :
    file ∈ shown path files ↔
      listPrefix path = "" ∨
        (listPrefix path).toList <+: (decodeName file.encryptedName).toList := by
  rw [shown, List.mem_filter, and_iff_right hmem, decide_eq_true_eq, ← startsWith_iff,
    not_and_not_right, or_iff_not_imp_left]

def scheme : List Char := "remote://".toList

theorem listPrefix_eq_iff {path p : String} :
    listPrefix path = p ↔ ∃ m j,
      path.toList = copies m scheme ++ (p.toList ++ List.replicate j '/') ∧
        ¬ scheme <+: p.toList ++ List.replicate j '/' ∧ p.toList.getLast? ≠ some '/' := by
  have hne : "remote://" ≠ "" := by decide
  unfold listPrefix
  rw [trimEndMatches_eq_iff]
  constructor
  · intro h
    obtain ⟨j, hrest, hlast⟩ := h
    obtain ⟨m, hpath, hscheme⟩ :=
      (trimStartMatches_eq_iff hne).mp (Eq.refl (trimStartMatches _ path))
    rw [hrest] at hpath hscheme
    exact ⟨m, j, hpath, hscheme, hlast⟩
  · intro h
    obtain ⟨m, j, hpath, hscheme, hlast⟩ := h
    refine ⟨j, ?_, hlast⟩
    have hlist : (String.ofList (p.toList ++ List.replicate j '/')).toList =
        p.toList ++ List.replicate j '/' := String.toList_ofList
    have htrim : trimStartMatches "remote://" path =
        String.ofList (p.toList ++ List.replicate j '/') := by
      rw [trimStartMatches_eq_iff hne, hlist]
      exact ⟨m, hpath, hscheme⟩
    rw [htrim, hlist]

/-- What is dropped of a path. -/
theorem exists_listPrefix (path : String) : ∃ m j,
    path.toList = copies m scheme ++ ((listPrefix path).toList ++ List.replicate j '/') ∧
      ¬ scheme <+: (listPrefix path).toList ++ List.replicate j '/' ∧
        (listPrefix path).toList.getLast? ≠ some '/' :=
  listPrefix_eq_iff.mp (Eq.refl (listPrefix path))

/-- What can precede the two slashes of the scheme. -/
theorem prefix_of_prefix_scheme {p : List Char} (hp : p <+: scheme)
    (hlast : p.getLast? ≠ some '/') : p <+: "remote:".toList := by
  have hall : ∀ p ∈ scheme.inits, p.getLast? ≠ some '/' → p ∈ "remote:".toList.inits := by decide
  exact (List.mem_inits _ _).mp (hall p ((List.mem_inits _ _).mpr hp) hlast)

theorem getLast?_of_prefix {p : List Char} (hp : p <+: "remote:".toList) :
    p.getLast? ≠ some '/' := by
  have hall : ∀ p ∈ "remote:".toList.inits, p.getLast? ≠ some '/' := by decide
  exact hall p ((List.mem_inits _ _).mpr hp)

/-- Slashes complete the scheme behind `remote:` only. -/
theorem scheme_prefix_slashes {p : List Char} (hp : p <+: "remote:".toList) {j : ℕ}
    (h : scheme <+: p ++ List.replicate j '/') : p = "remote:".toList ∧ 2 ≤ j := by
  obtain ⟨q, hq⟩ := hp
  obtain ⟨t, ht⟩ := h
  have hsplit : scheme = p ++ (q ++ ['/', '/']) := by
    rw [← List.append_assoc, hq]
    decide
  rw [hsplit, List.append_assoc] at ht
  have hslashes : q ++ ['/', '/'] ++ t = List.replicate j '/' := List.append_cancel_left ht
  have hmem : ∀ c ∈ q, c = '/' := by
    intro c hc
    refine List.eq_of_mem_replicate (n := j) ?_
    rw [← hslashes]
    exact List.mem_append_left _ (List.mem_append_left _ hc)
  have hnone : '/' ∉ "remote:".toList := by decide
  have hnil : q = [] := by
    rw [List.eq_nil_iff_forall_not_mem]
    intro c hc
    apply hnone
    rw [← hmem c hc, ← hq]
    exact List.mem_append_right p hc
  rw [hnil, List.append_nil] at hq
  refine ⟨hq, ?_⟩
  have hlen := congrArg List.length hslashes
  rw [List.length_append, List.length_append, List.length_replicate] at hlen
  simp only [List.length_cons, List.length_nil] at hlen
  omega

/-! ## The own destination -/

/-- Schemes, then a part of `remote:`, then slashes. -/
def SchemeOnly (destination : String) : Prop :=
  ∃ m p j, p <+: "remote:".toList ∧
    destination.toList = copies m scheme ++ (p ++ List.replicate j '/')

theorem listPrefix_slashes {destination : String} {m j : ℕ}
    (h : destination.toList = copies m scheme ++ List.replicate j '/') :
    listPrefix destination = "" := by
  have hscheme : ¬ scheme <+: List.replicate j '/' := by
    intro hp
    have hr : 'r' ∈ List.replicate j '/' := hp.subset (by decide)
    exact absurd (List.eq_of_mem_replicate hr) (by decide)
  exact listPrefix_eq_iff.mpr ⟨m, j, h, hscheme, by decide⟩

theorem schemeOnly_iff {destination : String} :
    SchemeOnly destination ↔ (listPrefix destination).toList <+: "remote:".toList := by
  constructor
  · intro h
    obtain ⟨m, p, j, hp, hdest⟩ := h
    by_cases hscheme : scheme <+: p ++ List.replicate j '/'
    · obtain ⟨rfl, hj⟩ := scheme_prefix_slashes hp hscheme
      obtain ⟨i, rfl⟩ := Nat.exists_eq_add_of_le hj
      have hmore : destination.toList = copies (m + 1) scheme ++ List.replicate i '/' := by
        rw [hdest, copies_succ', List.replicate_add, List.append_assoc]
        rfl
      rw [listPrefix_slashes hmore]
      exact List.nil_prefix
    · have hlist : (String.ofList p).toList = p := String.toList_ofList
      have hlisted : listPrefix destination = String.ofList p := by
        rw [listPrefix_eq_iff, hlist]
        exact ⟨m, j, hdest, hscheme, getLast?_of_prefix hp⟩
      rw [hlisted, hlist]
      exact hp
  · intro h
    obtain ⟨m, j, hdest, -, -⟩ := exists_listPrefix destination
    exact ⟨m, _, j, h, hdest⟩

theorem listPrefix_of_not_scheme {destination : String} (h : ¬ scheme <+: destination.toList) :
    listPrefix destination = trimEndMatches '/' destination := by
  obtain ⟨j, hdest, hlast⟩ := trimEndMatches_eq_iff.mp (Eq.refl (trimEndMatches '/' destination))
  refine listPrefix_eq_iff.mpr ⟨0, j, ?_, ?_, hlast⟩
  · rw [copies_zero_append]
    exact hdest
  · rw [← hdest]
    exact h

theorem remote_iff {destination : String} (h : ¬ scheme <+: destination.toList) :
    trimEndMatches '/' destination = "remote:" ↔
      destination = "remote:" ∨ destination = "remote:/" := by
  constructor
  · intro htrim
    obtain ⟨j, hdest, -⟩ := trimEndMatches_eq_iff.mp htrim
    have hj : j < 2 := by
      by_contra hle
      obtain ⟨i, rfl⟩ := Nat.exists_eq_add_of_le (not_lt.mp hle)
      apply h
      rw [hdest, List.replicate_add, ← List.append_assoc]
      exact List.prefix_append _ _
    have hcases : j = 0 ∨ j = 1 := by omega
    rcases hcases with rfl | rfl
    · exact .inl (String.toList_inj.mp hdest)
    · exact .inr (String.toList_inj.mp hdest)
  · intro hdest
    rcases hdest with rfl | rfl
    · decide
    · decide

/-- A destination with the scheme that is not listed whole is no root, and stays in front of
    the name. -/
theorem scheme_destination {destination : String} (h : scheme <+: destination.toList)
    (hlisted : listPrefix destination ≠ "") :
    ¬ RootDestination destination ∧ scheme <+: (trimEndMatches '/' destination).toList := by
  obtain ⟨m, j, hdest, hnot, hlast⟩ := exists_listPrefix destination
  have hne : (listPrefix destination).toList ≠ [] :=
    fun hnil => hlisted (String.toList_eq_nil_iff.mp hnil)
  obtain ⟨i, rfl⟩ : ∃ i, m = i + 1 := by
    refine Nat.exists_eq_succ_of_ne_zero fun hzero => hnot ?_
    rw [hdest, hzero, copies_zero_append] at h
    exact h
  have hlist : (String.ofList (copies (i + 1) scheme ++ (listPrefix destination).toList)).toList =
      copies (i + 1) scheme ++ (listPrefix destination).toList := String.toList_ofList
  have htrim : trimEndMatches '/' destination =
      String.ofList (copies (i + 1) scheme ++ (listPrefix destination).toList) := by
    rw [trimEndMatches_eq_iff, hlist]
    refine ⟨j, by rw [hdest, List.append_assoc], ?_⟩
    rw [List.getLast?_append_of_ne_nil _ hne]
    exact hlast
  have hlong : 9 < (trimEndMatches '/' destination).toList.length := by
    have hpos := List.length_pos_iff.mpr hne
    have hscheme : scheme.length = 9 := by decide
    rw [htrim, hlist, copies_succ, List.length_append, List.length_append, hscheme]
    omega
  have hroot : ∀ root : String, root.toList.length ≤ 9 → trimEndMatches '/' destination ≠ root := by
    intro root hroot heq
    rw [heq] at hlong
    omega
  refine ⟨?_, ?_⟩
  · intro h
    rcases h with heq | heq | heq
    · exact hroot "" (by decide) heq
    · exact hroot "remote:" (by decide) heq
    · exact hroot "remote://" (by decide) heq
  · rw [htrim, hlist, copies_succ, List.append_assoc]
    exact List.prefix_append scheme _

section Destination

variable {A : Aes256Gcm} {blake3 : Bytes → String} {key : FileKey} {destination name file : String}
  {path : PathBuf} {plaintext : Bytes} {u : PreparedUpload} {files : List FileMetaResponse}
  {listed : FileMetaResponse}

theorem prefix_remoteName_of_scheme (hscheme : scheme <+: destination.toList)
    (hfile : (fileName path).bind fromUtf8 = some file)
    (hname : remoteName destination path = .ok name) :
    (listPrefix destination = "" ∨ (listPrefix destination).toList <+: name.toList) ↔
      SchemeOnly destination := by
  rw [schemeOnly_iff]
  by_cases hlisted : listPrefix destination = ""
  · rw [hlisted]
    exact iff_of_true (.inl rfl) List.nil_prefix
  · obtain ⟨hroot, hkeep⟩ := scheme_destination hscheme hlisted
    obtain ⟨m, j, -, hnot, hlast⟩ := exists_listPrefix destination
    have hname' : scheme <+: name.toList := by
      rcases remoteName_eq_ok hfile hname with ⟨h, -⟩ | ⟨-, rfl⟩
      · exact absurd h hroot
      · rw [toList_directory]
        exact hkeep.trans (List.prefix_append _ _)
    rw [or_iff_right hlisted]
    constructor
    · intro h
      rcases List.prefix_or_prefix_of_prefix h hname' with hshort | hlong
      · exact prefix_of_prefix_scheme hshort hlast
      · exact absurd (hlong.trans (List.prefix_append _ _)) hnot
    · intro h
      have hremote : "remote:".toList <+: scheme := by decide
      exact (h.trans hremote).trans hname'

theorem prefix_remoteName_of_not_scheme (hscheme : ¬ scheme <+: destination.toList)
    (hfile : (fileName path).bind fromUtf8 = some file)
    (hname : remoteName destination path = .ok name) :
    (listPrefix destination = "" ∨ (listPrefix destination).toList <+: name.toList) ↔
      (destination = "remote:" ∨ destination = "remote:/" → "remote:".toList <+: file.toList) := by
  rw [listPrefix_of_not_scheme hscheme, ← remote_iff hscheme]
  rcases remoteName_eq_ok hfile hname with ⟨hroot, rfl⟩ | ⟨hroot, rfl⟩
  · rcases hroot with hroot | hroot | hroot
    · rw [hroot]
      exact iff_of_true (.inl rfl) fun h => absurd h (by decide)
    · rw [hroot]
      constructor
      · intro h _
        exact h.resolve_left (by decide)
      · intro h
        exact .inr (h rfl)
    · -- A trimmed text does not end in a slash.
      obtain ⟨-, -, hlast⟩ := trimEndMatches_eq_iff.mp hroot
      exact absurd hlast (by decide)
  · refine iff_of_true (.inr ?_) fun h => absurd (.inr (.inl h)) hroot
    rw [toList_directory]
    exact List.prefix_append _ _

/-- For every destination, and every local path with a file name in UTF-8. -/
theorem own_destination_iff (hfile : (fileName path).bind fromUtf8 = some file)
    (hname : remoteName destination path = .ok name)
    (hu : prepareUpload A blake3 key name plaintext = .ok u) (hlisted : listed ∈ files)
    (hencrypted : listed.encryptedName = u.encryptedName) :
    listed ∈ shown destination files ↔
      (startsWith "remote://" destination = true → SchemeOnly destination) ∧
        (¬ startsWith "remote://" destination = true →
          destination = "remote:" ∨ destination = "remote:/" →
            startsWith "remote:" file = true) := by
  obtain ⟨-, -, -, hstored⟩ := prepareUpload_eq_ok hu
  rw [mem_shown hlisted, hencrypted, hstored, decodeName_standardEncode, startsWith_iff,
    startsWith_iff]
  by_cases hscheme : scheme <+: destination.toList
  · rw [prefix_remoteName_of_scheme hscheme hfile hname]
    exact ⟨fun h => ⟨fun _ => h, fun hnot => absurd hscheme hnot⟩, fun h => h.1 hscheme⟩
  · rw [prefix_remoteName_of_not_scheme hscheme hfile hname]
    exact ⟨fun h => ⟨fun hyes => absurd hyes hscheme, fun _ => h⟩, fun h => h.2 hscheme⟩

end Destination

theorem own_destination_docs : ∃ u, prepareUpload (Aead.tagged runTag) (fun _ => "") runKey "docs/n"
      [42] = .ok u ∧
    remoteName "docs/" (asBytes "n") = .ok "docs/n" ∧
      runListed ⟨1⟩ u.encryptedName ∈ shown "docs/" [runListed ⟨1⟩ u.encryptedName] := by
  have hname : remoteName "docs/" (asBytes "n") = .ok "docs/n" := by decide
  have hfile : (fileName (asBytes "n")).bind fromUtf8 = some "n" := by decide
  obtain ⟨u, hu⟩ := exists_runUpload (fun _ => "") "docs/n" [42] (by decide)
  refine ⟨u, hu, hname, (own_destination_iff hfile hname hu List.mem_cons_self rfl).mpr ?_⟩
  exact ⟨fun h => absurd h (by decide), fun _ h => absurd h (by decide)⟩

/-- A file uploaded to `remote://docs` and the listing of `remote://docs`. -/
theorem own_destination_empty : ∃ u, prepareUpload (Aead.tagged runTag) (fun _ => "") runKey
      "remote://docs/n" [42] = .ok u ∧
    (fileName (asBytes "n")).bind fromUtf8 = some "n" ∧
      remoteName "remote://docs" (asBytes "n") = .ok "remote://docs/n" ∧
      listRun "remote://docs" [runListed ⟨1⟩ u.encryptedName] =
        ["No files matching 'remote://docs'."] := by
  obtain ⟨u, hu⟩ := exists_runUpload (fun _ => "") "remote://docs/n" [42] (by decide)
  refine ⟨u, hu, by decide, by decide, ?_⟩
  obtain ⟨-, -, -, hstored⟩ := prepareUpload_eq_ok hu
  rw [hstored]
  decide +kernel

end FreeBox.Cli
