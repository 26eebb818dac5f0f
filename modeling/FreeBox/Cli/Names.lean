import FreeBox.Cli.Upload
import FreeBox.Lib.Text

/-!
# Remote names and local paths

Model of `remote_name` in `apps/cli/src/commands/upload.rs` and of
`default_file_name` and `resolve_output_path` in `download.rs`, with Unix paths.

Results:
* `defaultFileName_standardEncode`, `resolveOutputPath_standardEncode`: every name
  that was uploaded gives an output path.
-/

namespace FreeBox.Cli

open FreeBox.Lib

/-! ## Paths -/

/-- `std::path::PathBuf` on Unix. -/
abbrev PathBuf := Bytes

/-- The separator `/`. -/
def separator : UInt8 := 47

/-- `Path::file_name`: the last component, unless it is `..`. Empty components and
    `.` are no components. -/
def fileName (path : PathBuf) : Option Bytes :=
  ((path.splitOn separator).filter fun part => part ≠ [] ∧ part ≠ [46]).getLast?.filter
    fun part => part ≠ [46, 46]

/-- `Path::join`. -/
def join (base path : PathBuf) : PathBuf :=
  if path.head? = some separator then path
  else if base = [] ∨ base.getLast? = some separator then base ++ path
  else base ++ separator :: path

/-- `Path::display` of a path in UTF-8; bytes that are not are shown as replacement
    characters. -/
def display (path : PathBuf) : String :=
  (fromUtf8 path).getD (String.ofList (path.map fun b => if b < 128 then .ofNat b.toNat else '�'))

/-! ## Names -/

/-- `upload::remote_name`. -/
def remoteName (destination : String) (file : PathBuf) : Except String String :=
  match (fileName file).bind fromUtf8 with
  | none => .error "upload path must have a UTF-8 file name"
  | some fileName =>
    let destination := trimEndMatches '/' destination
    if destination = "" ∨ destination = "remote:" ∨ destination = "remote://" then .ok fileName
    else .ok (destination ++ "/" ++ fileName)

/-- `download::default_file_name`. -/
def defaultFileName (encryptedName : String) : Except String String :=
  match standardDecode encryptedName with
  | none => .error "encrypted_name is not valid base64"
  | some decoded =>
    match fromUtf8 decoded with
    | none => .error "encrypted_name is not UTF-8"
    | some remoteName => .ok (((rsplit '/' remoteName).find? (· ≠ "")).getD "download.bin")

/-- `download::resolve_output_path`; `isDir` is `Path::is_dir`. -/
def resolveOutputPath (isDir : PathBuf → Bool) (output : Option PathBuf) (encryptedName : String) :
    Except String PathBuf := do
  let defaultName ← defaultFileName encryptedName
  match output with
  | some path => return if isDir path then join path (asBytes defaultName) else path
  | none => return asBytes defaultName

theorem remoteName_ok {destination : String} {file : PathBuf}
    (h : ((fileName file).bind fromUtf8).isSome) :
    ∃ name, remoteName destination file = .ok name := by
  obtain ⟨name, hname⟩ := Option.isSome_iff_exists.mp h
  unfold remoteName
  rw [hname]
  dsimp only
  split_ifs
  · exact ⟨name, rfl⟩
  · exact ⟨_, rfl⟩

theorem defaultFileName_standardEncode (name : String) :
    defaultFileName (standardEncode (asBytes name)) =
      .ok (((rsplit '/' name).find? (· ≠ "")).getD "download.bin") := by
  rw [defaultFileName, standardDecode_standardEncode]
  dsimp only
  rw [fromUtf8_asBytes]

theorem resolveOutputPath_standardEncode (isDir : PathBuf → Bool) (output : Option PathBuf)
    (name : String) :
    ∃ path, resolveOutputPath isDir output (standardEncode (asBytes name)) = .ok path := by
  unfold resolveOutputPath
  rw [defaultFileName_standardEncode]
  cases output with
  | none => exact ⟨_, rfl⟩
  | some path => exact ⟨_, rfl⟩

end FreeBox.Cli
