import FreeBox.Cli.OutputPath
import FreeBox.Web.Interop

/-!
# Names and hashes in both clients

The name of an uploaded file is read by both clients, with two UTF-8 decoders, and both
clients send a hash of the content.

Results:
* `names_survive_iff`: both clients show the name of the local file, unless it begins with a
  byte order mark and has no directory before it.
* `contentHash_ne`: the two clients never send the same hash.
-/

namespace FreeBox.Web

open FreeBox.Lib FreeBox.Lib.Ecma
open FreeBox.Crypto (Aes256Gcm FileKey runKey runTag)
open FreeBox.Cli (PathBuf asBytes fromUtf8 fileName remoteName defaultFileName standardEncode
  RootDestination)

/-! ## Names -/

variable {A : Aes256Gcm} {blake3 : Bytes → String} {key : FileKey} {destination name file : String}
  {path : PathBuf} {plaintext : Bytes} {u : Cli.PreparedUpload}

theorem toList_fileName (hfile : (fileName path).bind fromUtf8 = some file) :
    file.toList ≠ [] ∧ '/' ∉ file.toList := by
  obtain ⟨bytes, hbytes, hutf8⟩ := Option.bind_eq_some_iff.mp hfile
  have hnormal := Cli.fileName_eq_some hbytes
  rw [← Cli.asBytes_of_fromUtf8 hutf8] at hnormal
  refine ⟨fun hnil => hnormal.ne_nil ?_, fun hmem => ?_⟩
  · rw [Cli.asBytes_eq_textEncode, hnil]
    rfl
  · exact hnormal.no_separator (Cli.separator_mem_asBytes.mpr hmem)

/-- What the web client shows of a name that was encoded in UTF-8. -/
theorem decodeFileName_standardEncode (name : String) :
    decodeFileName (standardEncode (asBytes name)) =
      ((lastPart '/' (textDecode (textEncode name.toList))).map String.ofList).getD
        "download.bin" := by
  unfold decodeFileName
  rw [base64ToBytes_standardEncode, Cli.asBytes_eq_textEncode]
  rfl

/-- The last segment of a path that has a directory, and of one that has none. -/
theorem lastPart_segment {part : List Char} (hne : part ≠ []) (hpart : '/' ∉ part)
    (front : List Char) : lastPart '/' (front ++ '/' :: part) = some part := by
  have h := lastPart_append (front ++ ['/']) hne hpart (.inr List.getLast?_concat)
  rwa [List.append_assoc] at h

theorem lastPart_self {part : List Char} (hne : part ≠ []) (hpart : '/' ∉ part) :
    lastPart '/' part = some part :=
  lastPart_append [] hne hpart (.inl rfl)

theorem defaultFileName_remoteName (hfile : (fileName path).bind fromUtf8 = some file)
    (hname : remoteName destination path = .ok name) :
    defaultFileName (standardEncode (asBytes name)) = .ok file := by
  obtain ⟨hne, hpart⟩ := toList_fileName hfile
  have hlast : lastPart '/' name.toList = some file.toList := by
    rcases Cli.remoteName_eq_ok hfile hname with ⟨-, rfl⟩ | ⟨-, rfl⟩
    · exact lastPart_self hne hpart
    · rw [Cli.toList_directory]
      exact lastPart_segment hne hpart _
  rw [Cli.defaultFileName_of_decodedName (Cli.decodedName_standardEncode name), hlast,
    Option.map_some, Option.getD_some, String.ofList_toList]

/-- A name without its first character is not the name, and is not shown as it. -/
theorem shown_tail_ne {c : Char} {t : List Char} (hlist : file.toList = c :: t)
    (hpart : '/' ∉ file.toList) (hc : c = byteOrderMark) :
    ((lastPart '/' t).map String.ofList).getD "download.bin" ≠ file := by
  intro h
  have hshown := congrArg String.toList h
  by_cases hnil : t = []
  · subst hnil hc
    rw [hlist] at hshown
    exact absurd hshown (by decide)
  · have htail : '/' ∉ t := fun hmem => hpart (by rw [hlist]; exact List.mem_cons_of_mem c hmem)
    rw [lastPart_self hnil htail, Option.map_some, Option.getD_some, String.toList_ofList,
      hlist] at hshown
    exact List.ne_cons_self hshown

/-- A mark in front of a directory is lost with the directory. -/
theorem decodeFileName_remoteName_iff (hfile : (fileName path).bind fromUtf8 = some file)
    (hname : remoteName destination path = .ok name) :
    decodeFileName (standardEncode (asBytes name)) = file ↔
      (RootDestination destination → ∀ t, file.toList ≠ byteOrderMark :: t) := by
  obtain ⟨hne, hpart⟩ := toList_fileName hfile
  have hshow : ∀ text : List Char, lastPart '/' text = some file.toList →
      ((lastPart '/' text).map String.ofList).getD "download.bin" = file := by
    intro text h
    rw [h, Option.map_some, Option.getD_some, String.ofList_toList]
  rw [decodeFileName_standardEncode]
  rcases Cli.remoteName_eq_ok hfile hname with ⟨hroot, rfl⟩ | ⟨hroot, rfl⟩
  · constructor
    · intro h _ t ht
      rw [ht, textDecode_mark] at h
      exact shown_tail_ne ht hpart rfl h
    · intro h
      rw [textDecode_textEncode (h hroot)]
      exact hshow _ (lastPart_self hne hpart)
  · refine iff_of_true ?_ fun h => absurd h hroot
    rw [Cli.toList_directory]
    cases hdir : (trimEndMatches '/' destination).toList with
    | nil =>
      -- Without a directory the destination would be the root.
      have hempty : trimEndMatches '/' destination = "" := String.toList_eq_nil_iff.mp hdir
      exact absurd (.inl hempty) hroot
    | cons c front =>
      by_cases hc : c = byteOrderMark
      · subst hc
        rw [List.cons_append, textDecode_mark]
        exact hshow _ (lastPart_segment hne hpart front)
      · rw [List.cons_append, textDecode_textEncode fun t ht => hc (List.cons.inj ht).1]
        exact hshow _ (lastPart_segment hne hpart (c :: front))

/-- What both clients show for an upload of the local file `path`. -/
theorem names_survive_iff (hfile : (fileName path).bind fromUtf8 = some file)
    (hname : remoteName destination path = .ok name)
    (hu : Cli.prepareUpload A blake3 key name plaintext = .ok u) :
    defaultFileName u.encryptedName = .ok file ∧ decodeFileName u.encryptedName = file ↔
      (RootDestination destination → ∀ t, file.toList ≠ byteOrderMark :: t) := by
  obtain ⟨-, -, -, hencrypted⟩ := Cli.prepareUpload_eq_ok hu
  rw [hencrypted, decodeFileName_remoteName_iff hfile hname]
  exact and_iff_right (defaultFileName_remoteName hfile hname)

/-- The file `a/n` in the directory `docs`. -/
theorem names_survive_docs :
    (fileName (asBytes "a/n")).bind fromUtf8 = some "n" ∧
      remoteName "remote://docs" (asBytes "a/n") = .ok "remote://docs/n" ∧
      ∃ u, Cli.prepareUpload (Aead.tagged runTag) (fun _ => "") runKey "remote://docs/n" [42] =
          .ok u ∧
        defaultFileName u.encryptedName = .ok "n" ∧ decodeFileName u.encryptedName = "n" := by
  have hfile : (fileName (asBytes "a/n")).bind fromUtf8 = some "n" := by decide
  have hname : remoteName "remote://docs" (asBytes "a/n") = .ok "remote://docs/n" := by decide
  obtain ⟨u, hu⟩ := Cli.exists_runUpload (fun _ => "") "remote://docs/n" [42] (by decide)
  refine ⟨hfile, hname, u, hu, (names_survive_iff hfile hname hu).mpr fun _ t ht => ?_⟩
  exact absurd (List.cons.inj ht).1 (by decide)

/-- The file `n` with a byte order mark before its name, in the root. -/
theorem marked_name_changes :
    (fileName (asBytes "\uFEFFn")).bind fromUtf8 = some "\uFEFFn" ∧
      remoteName "remote://" (asBytes "\uFEFFn") = .ok "\uFEFFn" ∧
      ∃ u, Cli.prepareUpload (Aead.tagged runTag) (fun _ => "") runKey "\uFEFFn" [42] = .ok u ∧
        defaultFileName u.encryptedName = .ok "\uFEFFn" ∧ decodeFileName u.encryptedName = "n" := by
  have hfile : (fileName (asBytes "\uFEFFn")).bind fromUtf8 = some "\uFEFFn" := by decide
  have hname : remoteName "remote://" (asBytes "\uFEFFn") = .ok "\uFEFFn" := by decide
  obtain ⟨u, hu⟩ := Cli.exists_runUpload (fun _ => "") "\uFEFFn" [42] (by decide)
  obtain ⟨-, -, -, hencrypted⟩ := Cli.prepareUpload_eq_ok hu
  refine ⟨hfile, hname, u, hu, ?_, ?_⟩
  · rw [hencrypted, defaultFileName_remoteName hfile hname]
  · rw [hencrypted]
    decide +kernel

/-! ## Hashes -/

/-- `Hash::to_hex`. -/
def toHex (hash : Vector UInt8 32) : String :=
  String.ofList (hash.toList.flatMap fun b => hexFixed 2 b.toNat)

theorem length_toHex (hash : Vector UInt8 32) : (toHex hash).toList.length = 64 := by
  have hsum : ∀ l : List UInt8, (l.flatMap fun b => hexFixed 2 b.toNat).length = 2 * l.length := by
    intro l
    induction l with
    | nil => rfl
    | cons b l ih =>
      rw [List.flatMap_cons, List.length_append, length_hexFixed, ih, List.length_cons]
      ring
  rw [toHex, String.toList_ofList, hsum, hash.length_toList]

theorem length_bytesToBase64 (bytes : Bytes) :
    (bytesToBase64 bytes).toList.length = 4 * ((bytes.length + 2) / 3) := by
  rw [bytesToBase64, String.toList_ofList, Base64.length_encode]

theorem contentHash_prepareUpload (hu : Cli.prepareUpload A blake3 key name plaintext = .ok u) :
    u.contentHash = blake3 plaintext := by
  unfold Cli.prepareUpload at hu
  cases hc : Cli.encryptPlaintext A key plaintext with
  | error e => rw [hc] at hu; cases hu
  | ok records =>
    rw [hc] at hu
    simp only [bind, Except.bind] at hu
    split_ifs at hu
    exact (congrArg Cli.PreparedUpload.contentHash (Except.ok.inj hu)).symm

/-- Both digests have 32 bytes, of which the one is written in 64 characters and the other in
    44. The functions `blake3` and `sha256` may be any. -/
theorem contentHash_ne {blake3 sha256 : Bytes → Vector UInt8 32} {rawKey : Vector UInt8 32}
    {content : File} {v : PreparedUpload}
    (hu : Cli.prepareUpload A (fun m => toHex (blake3 m)) key name content.content = .ok u)
    (hv : prepareUpload (fun m => (sha256 m).toList) rawKey content = .ok v) :
    u.contentHash ≠ v.contentHash := by
  have hcli : u.contentHash = toHex (blake3 content.content) := contentHash_prepareUpload hu
  have hweb : ∃ buffer, v.contentHash = bytesToBase64 (sha256 buffer).toList := by
    unfold prepareUpload at hv
    cases hbuffer : arrayBuffer content.content with
    | error e => rw [hbuffer] at hv; cases hv
    | ok buffer =>
      rw [hbuffer] at hv
      exact ⟨buffer, (congrArg PreparedUpload.contentHash (Except.ok.inj hv)).symm⟩
  obtain ⟨buffer, hbuffer⟩ := hweb
  intro h
  rw [hcli, hbuffer] at h
  have hlength := congrArg (fun s : String => s.toList.length) h
  rw [length_toHex, length_bytesToBase64, (sha256 buffer).length_toList] at hlength
  exact absurd hlength (by decide)

theorem exists_runPrepared (sha256 : Bytes → Bytes) (content : Bytes)
    (h : content.length < 2 ^ 53) :
    ∃ v, prepareUpload sha256 runKey.bytes { name := "n", content } = .ok v := by
  have hbuffer : arrayBuffer content = .ok content := if_pos (by rw [maxByteLength]; omega)
  unfold prepareUpload
  rw [hbuffer]
  exact ⟨_, rfl⟩

/-- The digests of the empty content. -/
def blake3Empty : Vector UInt8 32 :=
  #v[0xaf, 0x13, 0x49, 0xb9, 0xf5, 0xf9, 0xa1, 0xa6, 0xa0, 0x40, 0x4d, 0xea, 0x36, 0xdc, 0xc9, 0x49,
    0x9b, 0xcb, 0x25, 0xc9, 0xad, 0xc1, 0x12, 0xb7, 0xcc, 0x9a, 0x93, 0xca, 0xe4, 0x1f, 0x32, 0x62]

def sha256Empty : Vector UInt8 32 :=
  #v[0xe3, 0xb0, 0xc4, 0x42, 0x98, 0xfc, 0x1c, 0x14, 0x9a, 0xfb, 0xf4, 0xc8, 0x99, 0x6f, 0xb9, 0x24,
    0x27, 0xae, 0x41, 0xe4, 0x64, 0x9b, 0x93, 0x4c, 0xa4, 0x95, 0x99, 0x1b, 0x78, 0x52, 0xb8, 0x55]

theorem contentHash_ne_empty : ∃ u v,
    Cli.prepareUpload (Aead.tagged runTag) (fun _ => toHex blake3Empty) runKey "n" [] = .ok u ∧
      prepareUpload (fun _ => sha256Empty.toList) runKey.bytes { name := "n", content := [] } =
        .ok v ∧ u.contentHash ≠ v.contentHash := by
  obtain ⟨u, hu⟩ := Cli.exists_runUpload (fun _ => toHex blake3Empty) "n" [] (by decide)
  obtain ⟨v, hv⟩ := exists_runPrepared (fun _ => sha256Empty.toList) [] (by decide)
  exact ⟨u, v, hu, hv, @contentHash_ne (Aead.tagged runTag) runKey "n" u (fun _ => blake3Empty)
    (fun _ => sha256Empty) runKey.bytes _ v hu hv⟩

/-- The empty file. -/
theorem hashes_of_empty : ∃ u v,
    Cli.prepareUpload (Aead.tagged runTag) (fun _ => toHex blake3Empty) runKey "n" [] = .ok u ∧
      prepareUpload (fun _ => sha256Empty.toList) runKey.bytes { name := "n", content := [] } =
        .ok v ∧
      u.contentHash = "af1349b9f5f9a1a6a0404dea36dcc9499bcb25c9adc112b7cc9a93cae41f3262" ∧
      v.contentHash = "47DEQpj8HBSa+/TImW+5JCeuQeRkm5NMpJWZG3hSuFU=" := by
  obtain ⟨u, hu⟩ := Cli.exists_runUpload (fun _ => toHex blake3Empty) "n" [] (by decide)
  refine ⟨u, _, hu, rfl, ?_, by decide +kernel⟩
  rw [contentHash_prepareUpload hu]
  decide +kernel

end FreeBox.Web
