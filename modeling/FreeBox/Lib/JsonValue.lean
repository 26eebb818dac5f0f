import FreeBox.Lib.JsonText

/-!
# JSON values

The values of `serde_json` with its readers for structs, sequences and integers, and the two
operators of PostgreSQL that work on members of objects. An object is given by its members,
whose order does not matter; an integer that is not negative is a number of its own.

Results:
* `asList_ofList`, `asBytes_ofBytes`, `fields_object`: what was written is read again.
* `appendMember_eq`: `jsonb_set` with `||` appends to an array that is a member.
* `length_print_array_le`: how long the text of an array can be.
-/

namespace FreeBox.Lib

inductive JsonValue
  | null
  | bool (b : Bool)
  | number (n : ℕ)
  /-- A number that is negative or not an integer, as it is printed. -/
  | otherNumber (text : List Char)
  | string (s : String)
  | array (elements : List JsonValue)
  | object (members : List (String × JsonValue))

namespace JsonValue

/-! ## Printing -/

mutual

/-- `serde_json::to_string`, without white space. -/
def print : JsonValue → List Char
  | null => ['n', 'u', 'l', 'l']
  | bool b => (toString b).toList
  | number n => Json.number n
  | otherNumber text => text
  | string s => JsonText.string s.toList
  | array [] => ['[', ']']
  | array (v :: vs) => '[' :: print v ++ printElements vs
  | object members => JsonText.object (printMembers members)

/-- The elements of an array after the first one, and the closing bracket. -/
def printElements : List JsonValue → List Char
  | [] => [']']
  | v :: vs => ',' :: print v ++ printElements vs

def printMembers : List (String × JsonValue) → List (List Char × List Char)
  | [] => []
  | (name, v) :: members => (name.toList, print v) :: printMembers members

end

/-- The length of `serde_json::to_vec`. -/
def size (v : JsonValue) : ℕ := (String.ofList v.print).utf8ByteSize

/-- No character takes more than four bytes. -/
theorem size_le (v : JsonValue) : v.size ≤ 4 * v.print.length := by
  unfold size
  induction v.print with
  | nil => simp
  | cons c s ih =>
    rw [String.ofList_cons, String.utf8ByteSize_append, String.utf8ByteSize_singleton,
      List.length_cons]
    have hc := c.utf8Size_le_four
    omega

theorem length_print_number_le {n k : ℕ} (hk : 0 < k) (h : n < 10 ^ k) :
    (print (number n)).length ≤ k := by
  rw [print]
  exact Json.length_number_le hk h

theorem length_printElements_le {vs : List JsonValue} {k : ℕ}
    (h : ∀ v ∈ vs, (print v).length ≤ k) : (printElements vs).length ≤ (k + 1) * vs.length + 1 := by
  induction vs with
  | nil => simp [printElements]
  | cons v vs ih =>
    have hv := h v List.mem_cons_self
    have hvs := ih fun u hu => h u (List.mem_cons_of_mem v hu)
    simp only [printElements, List.length_cons, List.length_append, Nat.mul_succ]
    omega

/-- An array whose elements take at most `k` characters. -/
theorem length_print_array_le {vs : List JsonValue} {k : ℕ} (h : ∀ v ∈ vs, (print v).length ≤ k) :
    (print (array vs)).length ≤ (k + 1) * vs.length + 2 := by
  cases vs with
  | nil => simp [print]
  | cons v vs =>
    have hv := h v List.mem_cons_self
    have hvs := length_printElements_le fun u hu => h u (List.mem_cons_of_mem v hu)
    simp only [print, List.length_cons, List.length_append, Nat.mul_succ]
    omega

/-! ## Reading -/

/-- `Value::get` of a member. -/
def get (name : String) : JsonValue → Option JsonValue
  | object members => members.lookup name
  | _ => none

/-- An integer below `bound`. -/
def asNat (bound : ℕ) : JsonValue → Option ℕ
  | number n => if n < bound then some n else none
  | _ => none

/-- A sequence. -/
def asList {α : Type} (read : JsonValue → Option α) : JsonValue → Option (List α)
  | array vs => vs.mapM read
  | _ => none

def asByte (v : JsonValue) : Option UInt8 := (v.asNat 256).map UInt8.ofNat

/-- `[u8; n]`. -/
def asBytes (n : ℕ) (v : JsonValue) : Option (Vector UInt8 n) :=
  match v.asList asByte with
  | none => none
  | some bs => if h : bs.length = n then some ⟨bs.toArray, h⟩ else none

/-- The fields of a struct with the given names: by their names in an object, whose other members
    are ignored, or by their order in an array. -/
def fields (names : List String) : JsonValue → Option (List JsonValue)
  | object members => names.mapM fun name => members.lookup name
  | array vs => if vs.length = names.length then some vs else none
  | _ => none

/-! ## Writing -/

def ofList {α : Type} (write : α → JsonValue) (l : List α) : JsonValue := array (l.map write)

def ofBytes {n : ℕ} (b : Vector UInt8 n) : JsonValue := ofList (fun x => number x.toNat) b.toList

/-- Elements that are read one by one. -/
theorem mapM_map {α β γ : Type} {read : β → Option γ} {f : α → β} {g : α → γ} {l : List α}
    (h : ∀ a ∈ l, read (f a) = some (g a)) : (l.map f).mapM read = some (l.map g) := by
  induction l with
  | nil => rfl
  | cons a l ih =>
    rw [List.map_cons, List.mapM_cons, h a List.mem_cons_self,
      ih fun b hb => h b (List.mem_cons_of_mem a hb)]
    rfl

theorem asList_ofList {α : Type} {read : JsonValue → Option α} {write : α → JsonValue}
    (h : ∀ a, read (write a) = some a) (l : List α) : (ofList write l).asList read = some l := by
  have hl := mapM_map (g := id) fun a (_ : a ∈ l) => h a
  rwa [List.map_id] at hl

theorem asNat_number {n bound : ℕ} (h : n < bound) : (number n).asNat bound = some n := if_pos h

theorem asByte_number (x : UInt8) : (number x.toNat).asByte = some x := by
  rw [asByte, asNat_number x.toNat_lt, Option.map_some, UInt8.ofNat_toNat]

theorem asBytes_ofBytes {n : ℕ} (b : Vector UInt8 n) : (ofBytes b).asBytes n = some b := by
  simp only [asBytes, ofBytes, asList_ofList asByte_number, Vector.length_toList, dite_true]
  rfl

theorem length_print_ofBytes_le {n : ℕ} (b : Vector UInt8 n) :
    (print (ofBytes b)).length ≤ 4 * n + 2 := by
  have hbyte : ∀ v ∈ b.toList.map fun x => number x.toNat, (print v).length ≤ 3 := by
    intro v hv
    obtain ⟨x, -, rfl⟩ := List.mem_map.mp hv
    exact length_print_number_le (by decide) (x.toNat_lt.trans (by decide))
  have h := length_print_array_le hbyte
  rwa [List.length_map, Vector.length_toList] at h

theorem lookup_of_mem {members : List (String × JsonValue)} {m : String × JsonValue}
    (h : (members.map Prod.fst).Nodup) (hm : m ∈ members) : members.lookup m.1 = some m.2 := by
  induction members with
  | nil => cases hm
  | cons m' members ih =>
    obtain ⟨hnew, hrest⟩ := List.nodup_cons.mp h
    rcases List.mem_cons.mp hm with rfl | hm
    · exact List.lookup_cons_self
    · have hne : m.1 ≠ m'.1 := fun heq => hnew (heq ▸ List.mem_map_of_mem hm)
      rw [List.lookup_cons, beq_false_of_ne hne]
      exact ih hrest hm

/-- A struct whose fields have names of their own. -/
theorem fields_object {members : List (String × JsonValue)} (h : (members.map Prod.fst).Nodup) :
    (object members).fields (members.map Prod.fst) = some (members.map Prod.snd) :=
  mapM_map fun _ hm => lookup_of_mem h hm

/-! ## JSONB -/

/-- `||`. -/
def concat : JsonValue → JsonValue → JsonValue
  | array vs, array ws => array (vs ++ ws)
  | object ms, object ns =>
    object ((ms.filter fun m => (ns.lookup m.1).isNone) ++ ns)
  | array vs, w => array (vs ++ [w])
  | v, array ws => array (v :: ws)
  | v, w => array [v, w]

/-- `jsonb_set(target, '{name}', value, false)`; `none` when it is an error. -/
def setMember (name : String) (value : JsonValue) : JsonValue → Option JsonValue
  | object members => some (object (members.map fun m => if m.1 = name then (name, value) else m))
  | array [] => some (array [])
  | _ => none

/-- `jsonb_set(target, '{name}', (target->'name') || value, false)`; `none` when it is an error or
    `NULL`. -/
def appendMember (name : String) (value target : JsonValue) : Option JsonValue :=
  match target.get name with
  | none => none
  | some old => setMember name (old.concat value) target

theorem appendMember_eq {members : List (String × JsonValue)} {name : String}
    {vs ws : List JsonValue} (h : members.lookup name = some (array vs)) :
    appendMember name (array ws) (object members) =
      some (object (members.map fun m => if m.1 = name then (name, array (vs ++ ws)) else m)) := by
  have hget : (object members).get name = some (array vs) := h
  simp only [appendMember, hget, concat, setMember]

end JsonValue

end FreeBox.Lib
