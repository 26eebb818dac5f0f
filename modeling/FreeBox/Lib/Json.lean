import FreeBox.Lib.Bytes
import Mathlib.Data.Nat.Digits.Defs

/-!
# JSON texts of numbers

The part of JSON that records of numbers and byte arrays need: decimal numbers
and arrays of them, printed without white space as `serde_json::to_vec` does,
and a reader for such texts.

Results:
* `readArray_array`: reading what was printed returns the numbers.
* `ofAscii_toAscii`: an ASCII text is determined by its bytes.
* `length_array_le`: how long the text of an array can be.
-/

namespace FreeBox.Lib.Json

/-! ## ASCII texts -/

/-- The bytes of a text of ASCII characters. -/
def toAscii (s : List Char) : Bytes := s.map fun c => UInt8.ofNat c.toNat

def ofAscii (b : Bytes) : List Char := b.map fun x => Char.ofNat x.toNat

theorem ofAscii_toAscii {s : List Char} (h : ∀ c ∈ s, c.toNat < 128) : ofAscii (toAscii s) = s := by
  rw [ofAscii, toAscii, List.map_map]
  refine (List.map_congr_left fun c hc => ?_).trans (List.map_id s)
  have hc := h c hc
  rw [Function.comp_apply, UInt8.toNat_ofNat_of_lt' (by rw [UInt8.size]; omega), Char.ofNat_toNat]
  rfl

/-! ## Printing -/

/-- A decimal number. -/
def number (n : ℕ) : List Char := Nat.toDigits 10 n

/-- The elements of an array after the first one, and the closing bracket. -/
def arrayTail : List ℕ → List Char
  | [] => [']']
  | n :: ns => ',' :: number n ++ arrayTail ns

def array : List ℕ → List Char
  | [] => ['[', ']']
  | n :: ns => '[' :: number n ++ arrayTail ns

theorem ascii_number {n : ℕ} {c : Char} (h : c ∈ number n) : c.toNat < 128 := by
  have hd := Nat.isDigit_of_mem_toDigits (by decide) (by decide) h
  simp only [Char.isDigit, Bool.and_eq_true, decide_eq_true_eq] at hd
  exact lt_of_le_of_lt (UInt32.le_iff_toNat_le.mp hd.2) (by decide)

theorem ascii_arrayTail {ns : List ℕ} {c : Char} (h : c ∈ arrayTail ns) : c.toNat < 128 := by
  induction ns with
  | nil => obtain rfl := List.mem_singleton.mp h; decide
  | cons n ns ih =>
    rw [arrayTail, List.cons_append, List.mem_cons, List.mem_append] at h
    rcases h with rfl | h | h
    · decide
    · exact ascii_number h
    · exact ih h

theorem ascii_array {ns : List ℕ} {c : Char} (h : c ∈ array ns) : c.toNat < 128 := by
  cases ns with
  | nil =>
    rcases List.mem_cons.mp h with rfl | h
    · decide
    · obtain rfl := List.mem_singleton.mp h; decide
  | cons n ns =>
    rw [array, List.cons_append, List.mem_cons, List.mem_append] at h
    rcases h with rfl | h | h
    · decide
    · exact ascii_number h
    · exact ascii_arrayTail h

theorem length_number_le {n k : ℕ} (hk : 0 < k) (h : n < 10 ^ k) : (number n).length ≤ k :=
  Nat.toDigits_length 10 n k hk h

theorem length_arrayTail_le {ns : List ℕ} {k : ℕ} (hk : 0 < k) (h : ∀ n ∈ ns, n < 10 ^ k) :
    (arrayTail ns).length ≤ (k + 1) * ns.length + 1 := by
  induction ns with
  | nil => simp [arrayTail]
  | cons n ns ih =>
    have hn := length_number_le hk (h n List.mem_cons_self)
    have hns := ih fun m hm => h m (List.mem_cons_of_mem n hm)
    simp only [arrayTail, List.length_cons, List.length_append, Nat.mul_succ]
    omega

/-- An array of numbers of at most `k` digits. -/
theorem length_array_le {ns : List ℕ} {k : ℕ} (hk : 0 < k) (h : ∀ n ∈ ns, n < 10 ^ k) :
    (array ns).length ≤ (k + 1) * ns.length + 2 := by
  cases ns with
  | nil => simp [array]
  | cons n ns =>
    have hn := length_number_le hk (h n List.mem_cons_self)
    have hns := length_arrayTail_le hk fun m hm => h m (List.mem_cons_of_mem n hm)
    simp only [array, List.length_cons, List.length_append, Nat.mul_succ]
    omega

/-! ## Reading -/

/-- The text after `lead`. -/
def expect (lead s : List Char) : Option (List Char) :=
  if lead <+: s then some (s.drop lead.length) else none

@[simp] theorem expect_append (lead s : List Char) : expect lead (lead ++ s) = some s := by
  simp [expect]

/-- The rest of a number whose digits so far have the value `acc`. -/
def readNumber : (acc : ℕ) → List Char → ℕ × List Char
  | acc, [] => (acc, [])
  | acc, c :: s =>
    if c.isDigit then readNumber (10 * acc + (c.toNat - '0'.toNat)) s else (acc, c :: s)

/-- The elements of an array up to its closing bracket; `acc` is the value of the
    digits of the current element so far. -/
def readElems : (acc : ℕ) → List Char → Option (List ℕ × List Char)
  | _, [] => none
  | acc, c :: s =>
    if c.isDigit then readElems (10 * acc + (c.toNat - '0'.toNat)) s
    else if c = ',' then (readElems 0 s).map fun (ns, rest) => (acc :: ns, rest)
    else if c = ']' then some ([acc], s)
    else none

def readArray : List Char → Option (List ℕ × List Char)
  | '[' :: ']' :: s => some ([], s)
  | '[' :: s => readElems 0 s
  | _ => none

theorem readNumber_digits {ds : List Char} (h : ∀ c ∈ ds, c.isDigit) {s : List Char}
    (hs : ∀ c ∈ s.head?, ¬ c.isDigit) (acc : ℕ) :
    readNumber acc (ds ++ s) = (Nat.ofDigitChars 10 ds acc, s) := by
  induction ds generalizing acc with
  | nil =>
    cases s with
    | nil => rfl
    | cons c s =>
      rw [List.nil_append, readNumber, if_neg (hs c rfl), Nat.ofDigitChars_nil]
  | cons d ds ih =>
    rw [List.cons_append, readNumber, if_pos (h d List.mem_cons_self),
      ih fun c hc => h c (List.mem_cons_of_mem _ hc), Nat.ofDigitChars_cons]

theorem readNumber_number (n : ℕ) {s : List Char} (hs : ∀ c ∈ s.head?, ¬ c.isDigit) :
    readNumber 0 (number n ++ s) = (n, s) := by
  rw [number, readNumber_digits (fun c hc => Nat.isDigit_of_mem_toDigits (by decide) (by decide) hc)
    hs, Nat.ofDigitChars_ten_toDigits]

theorem readElems_digits {ds : List Char} (h : ∀ c ∈ ds, c.isDigit) (acc : ℕ) (s : List Char) :
    readElems acc (ds ++ s) = readElems (Nat.ofDigitChars 10 ds acc) s := by
  induction ds generalizing acc with
  | nil => rfl
  | cons d ds ih =>
    rw [List.cons_append, readElems, if_pos (h d List.mem_cons_self),
      ih fun c hc => h c (List.mem_cons_of_mem _ hc), Nat.ofDigitChars_cons]

theorem readElems_number (n : ℕ) (s : List Char) :
    readElems 0 (number n ++ s) = readElems n s := by
  rw [number, readElems_digits fun c hc => Nat.isDigit_of_mem_toDigits (by decide) (by decide) hc,
    Nat.ofDigitChars_ten_toDigits]

theorem readElems_arrayTail (n : ℕ) (ns : List ℕ) (s : List Char) :
    readElems n (arrayTail ns ++ s) = some (n :: ns, s) := by
  induction ns generalizing n with
  | nil => rfl
  | cons m ns ih =>
    rw [arrayTail, List.cons_append, List.cons_append, List.append_assoc, readElems,
      if_neg (by decide), if_pos rfl, readElems_number, ih, Option.map_some]

theorem readArray_array (ns : List ℕ) (s : List Char) :
    readArray (array ns ++ s) = some (ns, s) := by
  cases ns with
  | nil => rfl
  | cons n ns =>
    rw [array, List.cons_append, List.cons_append, List.append_assoc, readArray,
      readElems_number, readElems_arrayTail]
    -- the first digit is not the closing bracket
    intro t ht
    have hmem : ']' ∈ number n := by
      cases hd : number n with
      | nil => exact absurd hd Nat.toDigits_ne_nil
      | cons d ds =>
        rw [hd, List.cons_append] at ht
        rw [(List.cons.inj ht).1]
        exact List.mem_cons_self
    exact absurd (Nat.isDigit_of_mem_toDigits (by decide) (by decide) hmem) (by decide)

end FreeBox.Lib.Json
