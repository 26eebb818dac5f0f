import FreeBox.Lib.Bytes
import FreeBox.Lib.StateExcept
import FreeBox.Lib.Table
import FreeBox.Lib.Uuid

/-!
# Storage plugins

Model of the trait `StorageProvider` in `packages/core/src/storage.rs`, and of its two
implementations in `plugins/storage-s3/src/lib.rs` and `plugins/storage-local/src/lib.rs`.

The OpenDAL operator is a map from keys to bytes: a read fails with `NotFound` when there
is no object, and nothing else fails. Keys are taken as they are; `FreeBox.Storage.FsService`
has the operator that normalises them. A plugin has no operator before `on_load`.

Results:
* `op_ok`, `read_ok`, `read_missing`: the calls of a loaded plugin.
-/

namespace FreeBox.Storage

open FreeBox.Lib

/-- The variants of `core::error::Error` that the plugins return. -/
inductive Error
  | notFound (key : String)
  | storage (message : String)
  deriving DecidableEq

/-- `storage::MultipartUpload`. -/
structure MultipartUpload where
  uploadId : String
  key : String
  deriving DecidableEq

/-- `storage::CompletedPart`. -/
structure CompletedPart where
  partNumber : UInt32
  etag : String
  deriving DecidableEq

/-- `storage::StorageCapabilities`. -/
structure StorageCapabilities where
  versioning : Bool
  serverSideCopy : Bool
  presignedUrls : Bool
  multipartUpload : Bool
  maxSinglePutBytes : Option ℕ
  deriving DecidableEq

/-- An OpenDAL operator. -/
abbrev Operator := Table String Bytes

/-- A method of a plugin; the state is `OnceLock<Operator>`. -/
abbrev PluginM := ExceptT Error (StateM (Option Operator))

/-- `storage::StorageProvider`. `createMultipart` is given the identifier it draws. -/
structure StorageProvider where
  id : String
  put : String → Bytes → PluginM Unit
  get : String → PluginM Bytes
  delete : String → PluginM Unit
  exist : String → PluginM Bool
  createMultipart : Uuid → String → PluginM MultipartUpload
  uploadPart : MultipartUpload → UInt32 → Bytes → PluginM CompletedPart
  completeMultipart : MultipartUpload → List CompletedPart → PluginM Unit
  abortMultipart : MultipartUpload → PluginM Unit
  capabilities : StorageCapabilities

/-! ## What the plugins share -/

/-- `op`, with the message of a plugin that is not loaded. -/
def op (message : String) : PluginM Operator := do
  match ← get with
  | none => throw (.storage message)
  | some operator => return operator

/-- `self.op()?.write(key, data)`. -/
def write (op : PluginM Operator) (key : String) (data : Bytes) : PluginM Unit := do
  let operator ← op
  set (some (operator.insert key data))

/-- `self.op()?.read(key)`. -/
def read (op : PluginM Operator) (key : String) : PluginM Bytes := do
  let operator ← op
  match operator.lookup key with
  | none => throw (.notFound key)
  | some data => return data

/-- `self.op()?.delete(key)`. -/
def remove (op : PluginM Operator) (key : String) : PluginM Unit := do
  let operator ← op
  set (some (operator.erase key))

/-- `self.op()?.is_exist(key)`. -/
def isExist (op : PluginM Operator) (key : String) : PluginM Bool := do
  let operator ← op
  return (operator.lookup key).isSome

/-- `create_multipart`. -/
def createMultipart (uploadId : Uuid) (key : String) : PluginM MultipartUpload :=
  return { uploadId := toString uploadId, key }

/-! ## Amazon S3 -/

namespace S3Plugin

def op : PluginM Operator := Storage.op "S3 plugin not yet initialized"

def put (key : String) (data : Bytes) : PluginM Unit := write op key data

def get (key : String) : PluginM Bytes := read op key

def delete (key : String) : PluginM Unit := remove op key

def exist (key : String) : PluginM Bool := isExist op key

/-- The part is written to the final key. -/
def uploadPart (upload : MultipartUpload) (partNumber : UInt32) (data : Bytes) :
    PluginM CompletedPart := do
  put upload.key data
  return { partNumber, etag := "" }

def completeMultipart (_ : MultipartUpload) (_ : List CompletedPart) : PluginM Unit := return ()

def abortMultipart (upload : MultipartUpload) : PluginM Unit := delete upload.key

def capabilities : StorageCapabilities where
  versioning := true
  serverSideCopy := true
  presignedUrls := true
  multipartUpload := true
  maxSinglePutBytes := some (5 * 1024 * 1024 * 1024)

end S3Plugin

/-- `storage_s3::S3Plugin`. -/
def s3Plugin : StorageProvider where
  id := "storage-s3"
  put := S3Plugin.put
  get := S3Plugin.get
  delete := S3Plugin.delete
  exist := S3Plugin.exist
  createMultipart := createMultipart
  uploadPart := S3Plugin.uploadPart
  completeMultipart := S3Plugin.completeMultipart
  abortMultipart := S3Plugin.abortMultipart
  capabilities := S3Plugin.capabilities

/-! ## The local file system -/

namespace LocalPlugin

def op : PluginM Operator := Storage.op "Local plugin not yet initialized"

def put (key : String) (data : Bytes) : PluginM Unit := write op key data

def get (key : String) : PluginM Bytes := read op key

def delete (key : String) : PluginM Unit := remove op key

def exist (key : String) : PluginM Bool := isExist op key

/-- `format!("{}.part.{:08}", upload.key, part_number)`. -/
def stagingKey (key : String) (partNumber : UInt32) : String :=
  key ++ ".part." ++ String.ofList (zeroPad 8 partNumber.toNat)

/-- The part is written to an object of its own. -/
def uploadPart (upload : MultipartUpload) (partNumber : UInt32) (data : Bytes) :
    PluginM CompletedPart := do
  put (stagingKey upload.key partNumber) data
  return { partNumber, etag := "" }

/-- One round of the loop of `complete_multipart`. An error of `delete` is ignored. -/
def appendPart (upload : MultipartUpload) (finalData : Bytes) (part : CompletedPart) :
    PluginM Bytes := do
  let chunk ← get (stagingKey upload.key part.partNumber)
  tryCatch (delete (stagingKey upload.key part.partNumber)) fun _ => return ()
  return finalData ++ chunk

/-- The parts are put together in the order of their numbers. -/
def completeMultipart (upload : MultipartUpload) (parts : List CompletedPart) : PluginM Unit := do
  let sorted := parts.mergeSort fun a b => a.partNumber ≤ b.partNumber
  let finalData ← sorted.foldlM (appendPart upload) []
  put upload.key finalData

def abortMultipart (upload : MultipartUpload) : PluginM Unit := delete upload.key

def capabilities : StorageCapabilities where
  versioning := false
  serverSideCopy := false
  presignedUrls := false
  multipartUpload := true
  maxSinglePutBytes := none

end LocalPlugin

/-- `storage_local::LocalPlugin`. -/
def localPlugin : StorageProvider where
  id := "storage-local"
  put := LocalPlugin.put
  get := LocalPlugin.get
  delete := LocalPlugin.delete
  exist := LocalPlugin.exist
  createMultipart := createMultipart
  uploadPart := LocalPlugin.uploadPart
  completeMultipart := LocalPlugin.completeMultipart
  abortMultipart := LocalPlugin.abortMultipart
  capabilities := LocalPlugin.capabilities

/-- An upload in parts: each is sent under its number, in the given order. -/
def StorageProvider.uploadParts (provider : StorageProvider) (uploadId : Uuid) (key : String)
    (parts : List (UInt32 × Bytes)) : PluginM Unit := do
  let upload ← provider.createMultipart uploadId key
  let completed ← parts.mapM fun part => provider.uploadPart upload part.1 part.2
  provider.completeMultipart upload completed

/-! ## Calls of a loaded plugin -/

variable {message key : String} {data : Bytes} {operator : Operator}

theorem op_ok : op message (some operator) = (.ok operator, some operator) := rfl

theorem read_ok (h : operator.lookup key = some data) :
    read (op message) key (some operator) = (.ok data, some operator) := by
  unfold read
  rw [StateExcept.bind_ok op_ok]
  simp only [h]
  rfl

theorem read_missing (h : operator.lookup key = none) :
    read (op message) key (some operator) = (.error (.notFound key), some operator) := by
  unfold read
  rw [StateExcept.bind_ok op_ok]
  simp only [h]
  rfl

end FreeBox.Storage
