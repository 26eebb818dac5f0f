import Mathlib.Data.List.DropRight
import Mathlib.Data.List.TakeDrop
import Mathlib.Tactic.NormNum
import Mathlib.Tactic.Ring

/-!
# Text formatting

Numbers printed at a fixed width, as `format!` does with `{:08}` and `{:032x}`,
`str::parse`, `str::starts_with`, `str::splitn`, `str::rsplit` and `str::trim`.

Results:
* `hexFixed_inj`, `zeroPad_inj`: the printed text determines the number.
* `hexFixed_hexDigit`: `hexFixed` prints lower-case hexadecimal digits only.
* `parseU32_toDigits`: a number that is printed and parsed.
* `splitn_append`: `splitn` cuts at the first separator.
-/

namespace FreeBox.Lib

/-! ## Fixed-width hexadecimal -/

/-- `n` modulo `16^w` in lower-case hexadecimal, with exactly `w` digits. -/
def hexFixed : (w : ℕ) → ℕ → List Char
  | 0, _ => []
  | w + 1, n => hexFixed w (n / 16) ++ [Nat.digitChar (n % 16)]

@[simp] theorem length_hexFixed (w n : ℕ) : (hexFixed w n).length = w := by
  induction w generalizing n with
  | zero => rfl
  | succ w ih => rw [hexFixed, List.length_append, ih]; rfl

theorem hexFixed_hexDigit {w n : ℕ} {c : Char} (h : c ∈ hexFixed w n) :
    ∃ d < 16, c = Nat.digitChar d := by
  induction w generalizing n with
  | zero => simp [hexFixed] at h
  | succ w ih =>
    rw [hexFixed, List.mem_append, List.mem_singleton] at h
    rcases h with h | rfl
    · exact ih h
    · exact ⟨n % 16, Nat.mod_lt _ (by norm_num), rfl⟩

theorem digitChar_inj : ∀ a < 16, ∀ b < 16, Nat.digitChar a = Nat.digitChar b → a = b := by
  decide

theorem hexFixed_inj {w a b : ℕ} (ha : a < 16 ^ w) (hb : b < 16 ^ w)
    (h : hexFixed w a = hexFixed w b) : a = b := by
  induction w generalizing a b with
  | zero => omega
  | succ w ih =>
    rw [hexFixed, hexFixed] at h
    obtain ⟨hhigh, hlow⟩ := List.append_inj' h rfl
    have e1 : a / 16 = b / 16 :=
      ih (by rw [pow_succ] at ha; omega) (by rw [pow_succ] at hb; omega) hhigh
    have e2 : a % 16 = b % 16 :=
      digitChar_inj _ (Nat.mod_lt _ (by norm_num)) _ (Nat.mod_lt _ (by norm_num))
        (List.singleton_inj.mp hlow)
    omega

/-! ## Zero-padded decimal -/

/-- `format!("{n:0w$}")`: decimal, padded on the left with zeros to at least
    `w` characters. -/
def zeroPad (w n : ℕ) : List Char := List.leftpad w '0' (Nat.toDigits 10 n)

theorem ofDigitChars_zeroPad (w n : ℕ) : Nat.ofDigitChars 10 (zeroPad w n) 0 = n := by
  rw [zeroPad, List.leftpad, Nat.ofDigitChars_append, Nat.ofDigitChars_replicate_zero, mul_zero,
    Nat.ofDigitChars_ten_toDigits]

theorem zeroPad_inj {w a b : ℕ} (h : zeroPad w a = zeroPad w b) : a = b := by
  rw [← ofDigitChars_zeroPad w a, h, ofDigitChars_zeroPad]

theorem isDigit_of_mem_zeroPad {w n : ℕ} {c : Char} (h : c ∈ zeroPad w n) : c.isDigit = true := by
  rw [zeroPad, List.leftpad, List.mem_append] at h
  rcases h with h | h
  · rw [List.eq_of_mem_replicate h]
    decide
  · exact Nat.isDigit_of_mem_toDigits (by decide) (by decide) h

/-! ## `str::parse` -/

/-- `str::parse::<u32>`: decimal digits, with an optional plus sign, of a value
    below `2^32`. -/
def parseU32 (s : List Char) : Option UInt32 :=
  let digits := if s.head? = some '+' then s.tail else s
  let value := Nat.ofDigitChars 10 digits 0
  if digits ≠ [] ∧ digits.all Char.isDigit ∧ value < 2 ^ 32 then some (.ofNat value) else none

theorem parseU32_toDigits {n : ℕ} (h : n < 2 ^ 32) :
    parseU32 (Nat.toDigits 10 n) = some (.ofNat n) := by
  have hdigit : ∀ c ∈ Nat.toDigits 10 n, c.isDigit = true := fun c hc =>
    Nat.isDigit_of_mem_toDigits (by decide) (by decide) hc
  have hsign : (Nat.toDigits 10 n).head? ≠ some '+' := by
    intro hplus
    have hmem := hdigit '+' (List.mem_of_head? hplus)
    exact absurd hmem (by decide)
  have hvalue : Nat.ofDigitChars 10 (Nat.toDigits 10 n) 0 = n := Nat.ofDigitChars_ten_toDigits
  simp only [parseU32, if_neg hsign, hvalue]
  exact if_pos ⟨Nat.toDigits_ne_nil, List.all_eq_true.mpr hdigit, h⟩

/-! ## `str::starts_with` and `str::ends_with` -/

def startsWith (lead s : String) : Bool := lead.toList.isPrefixOf s.toList

/-- `str::ends_with`. -/
def endsWith (tail s : String) : Bool := tail.toList.isSuffixOf s.toList

/-- `str::strip_prefix`. -/
def stripPrefix (lead s : String) : Option String :=
  if startsWith lead s then some (String.ofList (s.toList.drop lead.toList.length)) else none

/-! ## `str::splitn` -/

/-- `str::splitn(n, sep)`: at most `n` pieces, of which the last is not split. -/
def splitn (sep : Char) : ℕ → List Char → List (List Char)
  | 0, _ => []
  | 1, s => [s]
  | n + 2, s =>
    match s.span (· ≠ sep) with
    | (piece, []) => [piece]
    | (piece, _ :: rest) => piece :: splitn sep (n + 1) rest

theorem splitn_append {sep : Char} {piece : List Char} (h : sep ∉ piece) (n : ℕ)
    (rest : List Char) :
    splitn sep (n + 2) (piece ++ sep :: rest) = piece :: splitn sep (n + 1) rest := by
  have hkeep : ∀ c ∈ piece, decide (c ≠ sep) = true := fun c hc =>
    decide_eq_true (ne_of_mem_of_not_mem hc h)
  have htake : (piece ++ sep :: rest).takeWhile (· ≠ sep) = piece := by
    rw [List.takeWhile_append_of_pos hkeep, List.takeWhile_cons_of_neg (by simp), List.append_nil]
  have hdrop : (piece ++ sep :: rest).dropWhile (· ≠ sep) = sep :: rest := by
    rw [List.dropWhile_append_of_pos hkeep, List.dropWhile_cons_of_neg (by simp)]
  rw [splitn, List.span_eq_takeWhile_dropWhile, htake, hdrop]

/-- `str::rsplit` at one character: the pieces, from the last to the first. -/
def rsplit (sep : Char) (s : String) : List String :=
  (s.toList.splitOn sep).reverse.map String.ofList

/-! ## `str::trim` -/

/-- The Unicode property `White_Space` that `char::is_whitespace` tests. -/
def isWhitespace (c : Char) : Bool :=
  let n := c.toNat
  (9 ≤ n ∧ n ≤ 13) ∨ n = 0x20 ∨ n = 0x85 ∨ n = 0xA0 ∨ n = 0x1680 ∨ (0x2000 ≤ n ∧ n ≤ 0x200A) ∨
    n = 0x2028 ∨ n = 0x2029 ∨ n = 0x202F ∨ n = 0x205F ∨ n = 0x3000

/-- `str::trim_end_matches` of one character. -/
def trimEndMatches (c : Char) (s : String) : String :=
  String.ofList (s.toList.rdropWhile (· = c))

/-- `str::trim`: without leading and trailing white space. -/
def strTrim (s : String) : String :=
  String.ofList ((s.toList.dropWhile isWhitespace).rdropWhile isWhitespace)

end FreeBox.Lib
