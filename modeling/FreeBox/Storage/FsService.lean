import FreeBox.Lib.Text
import FreeBox.Storage.Plugins

/-!
# The local plugin over a service

An OpenDAL operator normalises its keys, so that `file` and `/file` name one object, and the
service under it refuses some writes: a key that names a directory, or a directory that is in
the way. A `FsService` has both as parameters, and the methods of `LocalPlugin` that make up an
upload in parts are repeated over it. A read of an object and a removal do not fail.

Results:
* `plain_uploadPart`, `plain_completeMultipart`: over the service that takes every key as it
  is, the methods are those of `FreeBox.Storage.Plugins`.
* `completeMultipart_ok`: a completion whose parts are staged comes to its write.
* `separates_normalizePath`: the documented rules keep the staging objects of an upload apart.
-/

namespace FreeBox.Storage

open FreeBox.Lib

/-- A service of OpenDAL with states `σ`. `path key` is the object that a key names; a write
may be refused, with the text of its error. -/
structure FsService (σ : Type) where
  path : String → String
  objects : σ → Operator
  write : String → Bytes → σ → Except String σ
  remove : String → σ → σ
  objects_write : ∀ {key data s t}, write key data s = .ok t →
    objects t = (objects s).insert (path key) data
  objects_remove : ∀ key s, objects (remove key s) = (objects s).erase (path key)

/-- A method of a plugin; the state is `OnceLock<Operator>`. -/
abbrev FsServiceM (σ : Type) := ExceptT Error (StateM (Option σ))

namespace FsService

variable {σ : Type} (service : FsService σ)

/-! ## The methods -/

def op : FsServiceM σ σ := do
  match ← MonadState.get with
  | none => throw (.storage "Local plugin not yet initialized")
  | some s => return s

def put (key : String) (data : Bytes) : FsServiceM σ Unit := do
  let s ← op
  match service.write key data s with
  | .error e => throw (.storage ("local put(" ++ key ++ "): " ++ e))
  | .ok t => set (some t)

def get (key : String) : FsServiceM σ Bytes := do
  let s ← op
  match (service.objects s).lookup (service.path key) with
  | none => throw (.notFound key)
  | some data => return data

def delete (key : String) : FsServiceM σ Unit := do
  let s ← op
  set (some (service.remove key s))

def uploadPart (upload : MultipartUpload) (partNumber : UInt32) (data : Bytes) :
    FsServiceM σ CompletedPart := do
  service.put (LocalPlugin.stagingKey upload.key partNumber) data
  return { partNumber, etag := "" }

/-- One round of the loop of `complete_multipart`. -/
def appendPart (upload : MultipartUpload) (finalData : Bytes) (part : CompletedPart) :
    FsServiceM σ Bytes := do
  let chunk ← service.get (LocalPlugin.stagingKey upload.key part.partNumber)
  tryCatch (service.delete (LocalPlugin.stagingKey upload.key part.partNumber))
    fun _ => return ()
  return finalData ++ chunk

def completeMultipart (upload : MultipartUpload) (parts : List CompletedPart) :
    FsServiceM σ Unit := do
  let sorted := parts.mergeSort fun a b => a.partNumber ≤ b.partNumber
  let finalData ← sorted.foldlM (service.appendPart upload) []
  service.put upload.key finalData

/-! ## Calls of a loaded plugin -/

variable {service} {key : String} {data finalData chunk : Bytes} {s t : σ}
  {u : MultipartUpload} {part : CompletedPart}

theorem op_ok : op (some s) = (.ok s, some s) := rfl

theorem put_ok (h : service.write key data s = .ok t) :
    service.put key data (some s) = (.ok (), some t) := by
  unfold put
  rw [StateExcept.bind_ok op_ok, h]
  rfl

theorem put_refused {e : String} (h : service.write key data s = .error e) :
    service.put key data (some s) =
      (.error (.storage ("local put(" ++ key ++ "): " ++ e)), some s) := by
  unfold put
  rw [StateExcept.bind_ok op_ok, h]
  rfl

theorem put_eq_ok (h : service.put key data (some s) = (.ok (), some t)) :
    service.write key data s = .ok t := by
  cases hwrite : service.write key data s with
  | error e => rw [put_refused hwrite] at h; cases h
  | ok t' => rw [put_ok hwrite] at h; cases h; rfl

theorem get_ok (h : (service.objects s).lookup (service.path key) = some data) :
    service.get key (some s) = (.ok data, some s) := by
  unfold get
  rw [StateExcept.bind_ok op_ok, h]
  rfl

theorem get_missing (h : (service.objects s).lookup (service.path key) = none) :
    service.get key (some s) = (.error (.notFound key), some s) := by
  unfold get
  rw [StateExcept.bind_ok op_ok, h]
  rfl

/-! ## The keys as they are -/

/-- Every key names an object of its own, and no write is refused. -/
def plain : FsService Operator where
  path := id
  objects := id
  write key data s := .ok (s.insert key data)
  remove key s := s.erase key
  objects_write h := by cases h; rfl
  objects_remove _ _ := rfl

theorem plain_put : plain.put = LocalPlugin.put := by
  funext key data s
  cases s <;> rfl

theorem plain_get : plain.get = LocalPlugin.get := by
  funext key s
  cases s with
  | none => rfl
  | some operator =>
    cases h : operator.lookup key with
    | none => exact (get_missing h).trans (read_missing h).symm
    | some data => exact (get_ok h).trans (read_ok h).symm

theorem plain_delete : plain.delete = LocalPlugin.delete := by
  funext key s
  cases s <;> rfl

theorem plain_uploadPart : plain.uploadPart = LocalPlugin.uploadPart := by
  funext upload n data
  unfold uploadPart LocalPlugin.uploadPart
  rw [plain_put]

theorem plain_completeMultipart : plain.completeMultipart = LocalPlugin.completeMultipart := by
  have hround : plain.appendPart = LocalPlugin.appendPart := by
    funext upload finalData part
    unfold appendPart LocalPlugin.appendPart
    rw [plain_get, plain_delete]
  funext upload parts
  unfold completeMultipart LocalPlugin.completeMultipart
  rw [hround, plain_put]

/-! ## Completion -/

theorem appendPart_ok (h : (service.objects s).lookup
      (service.path (LocalPlugin.stagingKey u.key part.partNumber)) = some chunk) :
    service.appendPart u finalData part (some s) = (.ok (finalData ++ chunk),
      some (service.remove (LocalPlugin.stagingKey u.key part.partNumber) s)) := by
  unfold appendPart
  rw [StateExcept.bind_ok (get_ok h)]
  rfl

/-- The state after the staging objects of the parts have been removed. -/
def removeParts (service : FsService σ) (key : String) (parts : List CompletedPart) (s : σ) : σ :=
  parts.foldl (fun s part => service.remove (LocalPlugin.stagingKey key part.partNumber) s) s

theorem lookup_removeParts (service : FsService σ) (key : String) (parts : List CompletedPart)
    (s : σ) (p : String) : (service.objects (service.removeParts key parts s)).lookup p =
      if ∃ part ∈ parts, p = service.path (LocalPlugin.stagingKey key part.partNumber) then none
      else (service.objects s).lookup p := by
  induction parts generalizing s with
  | nil => simp [removeParts]
  | cons part parts ih =>
    show (service.objects (service.removeParts key parts
      (service.remove (LocalPlugin.stagingKey key part.partNumber) s))).lookup p = _
    rw [ih, service.objects_remove]
    by_cases hp : p = service.path (LocalPlugin.stagingKey key part.partNumber)
    · rw [hp, AList.lookup_erase, ite_self, if_pos ⟨part, List.mem_cons_self, rfl⟩]
    · rw [AList.lookup_erase_ne hp]
      simp only [List.exists_mem_cons_iff, hp, false_or]

/-- The keys of the staging objects of an upload name objects of their own. -/
structure Separates (path : String → String) (key : String) : Prop where
  parts : ∀ m n, path (LocalPlugin.stagingKey key m) = path (LocalPlugin.stagingKey key n) → m = n
  object : ∀ n, path (LocalPlugin.stagingKey key n) ≠ path key

/-- The loop of `complete_multipart`: the staging objects of the parts that are left are
all there, and no two of these parts have one number. -/
theorem foldlM_appendPart {β : Type} {parts : List β} {part : β → CompletedPart}
    {data : β → Bytes} (hkey : Separates service.path u.key)
    (hnodup : (parts.map fun b => (part b).partNumber).Nodup)
    (hstaged : ∀ b ∈ parts, (service.objects s).lookup
      (service.path (LocalPlugin.stagingKey u.key (part b).partNumber)) = some (data b))
    (finalData : Bytes) :
    (parts.map part).foldlM (service.appendPart u) finalData (some s) =
      (.ok (finalData ++ (parts.map data).flatten),
        some (service.removeParts u.key (parts.map part) s)) := by
  induction parts generalizing s finalData with
  | nil =>
    simp only [List.map_nil, List.flatten_nil, List.append_nil]
    rfl
  | cons b parts ih =>
    obtain ⟨hpart, hparts⟩ := List.nodup_cons.mp hnodup
    have hleft : ∀ b' ∈ parts, (service.objects
        (service.remove (LocalPlugin.stagingKey u.key (part b).partNumber) s)).lookup
          (service.path (LocalPlugin.stagingKey u.key (part b').partNumber)) = some (data b') := by
      intro b' hmem
      rw [service.objects_remove, AList.lookup_erase_ne, hstaged b' (List.mem_cons_of_mem _ hmem)]
      intro heq
      exact hpart (List.mem_map.mpr ⟨b', hmem, hkey.parts _ _ heq⟩)
    have hround : service.appendPart u finalData (part b) (some s) = (.ok (finalData ++ data b),
        some (service.remove (LocalPlugin.stagingKey u.key (part b).partNumber) s)) :=
      appendPart_ok (hstaged b List.mem_cons_self)
    rw [List.map_cons, List.foldlM_cons, StateExcept.bind_ok hround, ih hparts hleft]
    simp [removeParts]

/-- An upload is completed with a list that is put in the order `sorted`. -/
theorem completeMultipart_ok {β : Type} {list : List CompletedPart} {sorted : List β}
    {part : β → CompletedPart} {data : β → Bytes} (hkey : Separates service.path u.key)
    (hsorted : (list.mergeSort fun a b => a.partNumber ≤ b.partNumber) = sorted.map part)
    (hnodup : (sorted.map fun b => (part b).partNumber).Nodup)
    (hstaged : ∀ b ∈ sorted, (service.objects s).lookup
      (service.path (LocalPlugin.stagingKey u.key (part b).partNumber)) = some (data b)) :
    service.completeMultipart u list (some s) = service.put u.key (sorted.map data).flatten
      (some (service.removeParts u.key (sorted.map part) s)) := by
  unfold completeMultipart
  rw [hsorted, StateExcept.bind_ok (foldlM_appendPart hkey hnodup hstaged [])]
  rfl

end FsService

/-! ## The names of objects -/

/-- Of several slashes in a row only the last one is kept. -/
def joinSlashes : List Char → List Char
  | c :: d :: cs => if c = '/' ∧ d = '/' then joinSlashes (d :: cs) else c :: joinSlashes (d :: cs)
  | cs => cs

/-- The slashes before a key are dropped, and those in a row are joined. -/
def normalizeSlashes (cs : List Char) : List Char :=
  let cs := cs.dropWhile (· = '/')
  if cs = [] then ['/'] else joinSlashes cs

/-- The rules that OpenDAL documents for keys: white space around a key and slashes before it
are dropped, slashes in a row are joined, and the empty key is `/`. -/
def normalizePath (key : String) : String := String.ofList (normalizeSlashes (strTrim key).toList)

section Names

variable {p : Char → Bool} {a b cs : List Char}

theorem dropWhile_append_of_head (h : ∀ c ∈ b.head?, p c = false) :
    (a ++ b).dropWhile p = a.dropWhile p ++ b := by
  induction a with
  | nil =>
    cases b with
    | nil => rfl
    | cons c b => exact List.dropWhile_cons_of_neg (by rw [h c rfl]; exact Bool.false_ne_true)
  | cons c a ih =>
    rw [List.cons_append, List.dropWhile_cons, List.dropWhile_cons]
    split_ifs
    · exact ih
    · rfl

theorem joinSlashes_pos (h : cs ≠ []) : 0 < (joinSlashes cs).length := by
  fun_induction joinSlashes cs with
  | case1 c d cs _ ih => exact ih (List.cons_ne_nil d cs)
  | case2 => exact Nat.succ_pos _
  | case3 => exact List.length_pos_iff.mpr h

theorem joinSlashes_of_notMem (h : '/' ∉ b) : joinSlashes b = b := by
  fun_induction joinSlashes b with
  | case1 c d cs hboth => exact absurd (by rw [hboth.1]; exact List.mem_cons_self) h
  | case2 c d cs _ ih => rw [ih fun hmem => h (List.mem_cons_of_mem c hmem)]
  | case3 => rfl

/-- What is appended without a slash stays as it is. -/
theorem joinSlashes_append (h : '/' ∉ b) : joinSlashes (a ++ b) = joinSlashes a ++ b := by
  fun_induction joinSlashes a with
  | case1 c d cs hboth ih => rwa [List.cons_append, List.cons_append, joinSlashes, if_pos hboth]
  | case2 c d cs hboth ih =>
    rw [List.cons_append, List.cons_append, joinSlashes, if_neg hboth, ← List.cons_append, ih,
      List.cons_append]
  | case3 cs hshort =>
    match cs, b with
    | [], b => exact joinSlashes_of_notMem h
    | [c], [] => rfl
    | [c], d :: b =>
      have hd : ¬ (c = '/' ∧ d = '/') := fun hboth => h (by rw [hboth.2]; exact List.mem_cons_self)
      rw [List.cons_append, List.nil_append, joinSlashes, if_neg hd, joinSlashes_of_notMem h]
    | c :: d :: cs, _ => exact absurd rfl (hshort c d cs)

theorem length_joinSlashes_le (a b : List Char) :
    (joinSlashes a).length ≤ (joinSlashes (a ++ b)).length := by
  fun_induction joinSlashes a with
  | case1 c d cs hboth ih => rwa [List.cons_append, List.cons_append, joinSlashes, if_pos hboth]
  | case2 c d cs hboth ih =>
    rw [List.cons_append, List.cons_append, joinSlashes, if_neg hboth]
    exact Nat.succ_le_succ ih
  | case3 cs hshort =>
    match cs with
    | [] => exact Nat.zero_le _
    | [c] => exact joinSlashes_pos (List.cons_ne_nil c b)
    | c :: d :: cs => exact absurd rfl (hshort c d cs)

/-- The text that a staging key has after the key of its object. -/
def stagingEnd (n : UInt32) : List Char := ['.', 'p', 'a', 'r', 't', '.'] ++ zeroPad 8 n.toNat

theorem toList_stagingKey (key : String) (n : UInt32) :
    (LocalPlugin.stagingKey key n).toList = key.toList ++ stagingEnd n := by
  simp [LocalPlugin.stagingKey, stagingEnd]

theorem stagingEnd_ne_nil (n : UInt32) : stagingEnd n ≠ [] := List.cons_ne_nil _ _

theorem slash_notMem_stagingEnd (n : UInt32) : '/' ∉ stagingEnd n := by
  intro hmem
  rcases List.mem_append.mp hmem with hmem | hmem
  · exact absurd hmem (by decide)
  · exact absurd (isDigit_of_mem_zeroPad hmem) (by decide)

theorem isWhitespace_of_mem_stagingEnd {n : UInt32} {c : Char} (h : c ∈ stagingEnd n) :
    isWhitespace c = false := by
  rcases List.mem_append.mp h with hmem | hmem
  · have hnone : ['.', 'p', 'a', 'r', 't', '.'].any isWhitespace = false := by decide
    exact Bool.eq_false_of_not_eq_true (List.any_eq_false.mp hnone c hmem)
  · have hdigit := isDigit_of_mem_zeroPad hmem
    rw [Char.isDigit, Bool.and_eq_true, decide_eq_true_eq, decide_eq_true_eq,
      ge_iff_le, UInt32.le_iff_toNat_le, UInt32.le_iff_toNat_le] at hdigit
    have hlow : 48 ≤ c.toNat := hdigit.1
    have hhigh : c.toNat ≤ 57 := hdigit.2
    rw [isWhitespace, decide_eq_false_iff_not]
    omega

/-- The key of an object as it stands before the ends of its staging keys. -/
def stagingStart (key : String) : List Char :=
  joinSlashes ((key.toList.dropWhile isWhitespace).dropWhile (· = '/'))

/-- The rules do not touch the end of a staging key. -/
theorem toList_normalizePath_stagingKey (key : String) (n : UInt32) :
    (normalizePath (LocalPlugin.stagingKey key n)).toList = stagingStart key ++ stagingEnd n := by
  have hfirst : ∀ c ∈ (stagingEnd n).head?, isWhitespace c = false := fun c hc =>
    isWhitespace_of_mem_stagingEnd (List.mem_of_head? hc)
  have hslash : ∀ c ∈ (stagingEnd n).head?, decide (c = '/') = false := fun c hc =>
    decide_eq_false fun heq => slash_notMem_stagingEnd n (heq ▸ List.mem_of_head? hc)
  have hlast : ∀ x : List Char, (x ++ stagingEnd n).rdropWhile isWhitespace = x ++ stagingEnd n := by
    intro x
    rw [List.rdropWhile_eq_self_iff]
    intro hne
    rw [List.getLast_append_of_ne_nil hne (stagingEnd_ne_nil n),
      isWhitespace_of_mem_stagingEnd (List.getLast_mem _)]
    exact Bool.false_ne_true
  unfold normalizePath normalizeSlashes strTrim
  rw [String.toList_ofList, String.toList_ofList, toList_stagingKey,
    dropWhile_append_of_head hfirst, hlast, dropWhile_append_of_head hslash]
  dsimp only
  rw [if_neg fun hnil => stagingEnd_ne_nil n (List.append_eq_nil_iff.mp hnil).2,
    joinSlashes_append (slash_notMem_stagingEnd n), stagingStart]

theorem length_normalizePath_le (key : String) :
    (normalizePath key).toList.length ≤ (stagingStart key).length + 1 := by
  unfold normalizePath normalizeSlashes strTrim
  rw [String.toList_ofList, String.toList_ofList]
  dsimp only
  split_ifs with hnil
  · exact Nat.le_add_left 1 _
  · obtain ⟨b, hb⟩ := List.rdropWhile_prefix isWhitespace (key.toList.dropWhile isWhitespace)
    rw [stagingStart, ← hb, List.dropWhile_append, if_neg (by simpa using hnil), hb]
    exact (length_joinSlashes_le _ b).trans (Nat.le_succ _)

theorem separates_normalizePath (key : String) : FsService.Separates normalizePath key where
  parts m n h := by
    have hlist := congrArg String.toList h
    rw [toList_normalizePath_stagingKey, toList_normalizePath_stagingKey,
      List.append_cancel_left_eq, stagingEnd, stagingEnd, List.append_cancel_left_eq] at hlist
    exact UInt32.toNat_inj.mp (zeroPad_inj hlist)
  object n h := by
    have hle := length_normalizePath_le key
    rw [← h, toList_normalizePath_stagingKey, List.length_append] at hle
    have hlong : 6 ≤ (stagingEnd n).length := by
      rw [stagingEnd, List.length_append]
      exact Nat.le_add_right 6 _
    omega

end Names

end FreeBox.Storage
