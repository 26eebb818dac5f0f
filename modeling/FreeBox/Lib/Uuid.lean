import FreeBox.Lib.Text

/-!
# UUIDs and their text form

A UUID is a 128-bit number; `Display` prints it as 32 lower-case hexadecimal
digits in groups of 8, 4, 4, 4 and 12, separated by dashes, and
`Uuid::parse_str` reads this form and three others.

Results:
* `Uuid.chars_inj`: the text form determines the UUID.
* `Uuid.length_chars`: it has 36 characters.
* `Uuid.parseStr_chars`: a UUID that is printed and parsed.
-/

namespace FreeBox.Lib

structure Uuid where
  value : BitVec 128
  deriving DecidableEq

namespace Uuid

/-- The characters of the hyphenated form. -/
def chars (u : Uuid) : List Char :=
  let h := hexFixed 32 u.value.toNat
  h.take 8 ++ '-' :: ((h.drop 8).take 4 ++ '-' :: ((h.drop 12).take 4 ++
    '-' :: ((h.drop 16).take 4 ++ '-' :: h.drop 20)))

instance : ToString Uuid := ⟨fun u => String.ofList u.chars⟩

@[simp] theorem toList_toString (u : Uuid) : (toString u).toList = u.chars :=
  String.toList_ofList

@[simp] theorem length_chars (u : Uuid) : u.chars.length = 36 := by
  simp [chars]

theorem digitChar_ne_dash : ∀ d < 16, Nat.digitChar d ≠ '-' := by decide

/-- Without its dashes the text form is the plain hexadecimal number. -/
theorem filter_chars (u : Uuid) :
    u.chars.filter (· ≠ '-') = hexFixed 32 u.value.toNat := by
  have hdash : ∀ c ∈ hexFixed 32 u.value.toNat, c ≠ '-' := by
    intro c hc
    obtain ⟨d, hd, rfl⟩ := hexFixed_hexDigit hc
    exact digitChar_ne_dash d hd
  have hkeep : ∀ l : List Char, l.Sublist (hexFixed 32 u.value.toNat) → l.filter (· ≠ '-') = l := by
    intro l hl
    rw [List.filter_eq_self]
    intro c hc
    exact decide_eq_true (hdash c (hl.subset hc))
  unfold chars
  set h := hexFixed 32 u.value.toNat
  have hdt : ∀ m n, ((h.drop m).take n).Sublist h := fun m n =>
    (List.take_sublist _ _).trans (List.drop_sublist _ _)
  simp only [List.filter_append, List.filter_cons, hkeep _ (List.take_sublist _ _), hkeep _ (hdt _ _),
    hkeep _ (List.drop_sublist _ _), ne_eq, not_true_eq_false, decide_false, Bool.false_eq_true,
    if_false]
  rw [show h.drop 20 = (h.drop 16).drop 4 by rw [List.drop_drop], List.take_append_drop,
    show h.drop 16 = (h.drop 12).drop 4 by rw [List.drop_drop], List.take_append_drop,
    show h.drop 12 = (h.drop 8).drop 4 by rw [List.drop_drop], List.take_append_drop,
    List.take_append_drop]

theorem chars_inj {u v : Uuid} (h : u.chars = v.chars) : u = v := by
  have hh : hexFixed 32 u.value.toNat = hexFixed 32 v.value.toNat := by
    rw [← filter_chars, ← filter_chars, h]
  have hv := hexFixed_inj (by have := u.value.isLt; omega) (by have := v.value.isLt; omega) hh
  cases u; cases v
  exact congrArg Uuid.mk (BitVec.eq_of_toNat_eq hv)

/-! ## Parsing -/

/-- The value of a hexadecimal digit of either case. -/
def hexDigit? (c : Char) : Option ℕ :=
  if c.isDigit then some (c.toNat - 48)
  else if 'a' ≤ c ∧ c ≤ 'f' then some (c.toNat - 87)
  else if 'A' ≤ c ∧ c ≤ 'F' then some (c.toNat - 55)
  else none

/-- 32 hexadecimal digits. -/
def parseSimple (s : List Char) : Option Uuid :=
  if s.length = 32 then
    (s.foldlM (fun n c => (hexDigit? c).map (16 * n + ·)) 0).map fun n => ⟨.ofNat 128 n⟩
  else none

/-- The hyphenated form. -/
def parseHyphenated (s : List Char) : Option Uuid :=
  if s.length = 36 ∧ [8, 13, 18, 23].all (fun i => s[i]? = some '-') then
    parseSimple (s.filter (· ≠ '-'))
  else none

/-- `Uuid::parse_str`: 32 digits, or the hyphenated form as it is, in braces or after
    `urn:uuid:`. -/
def parseStr (s : List Char) : Option Uuid :=
  match s.length with
  | 32 => parseSimple s
  | 36 => parseHyphenated s
  | 38 =>
    if s.head? = some '\x7b' ∧ s.getLast? = some '\x7d' then parseHyphenated s.tail.dropLast
    else none
  | 45 => if "urn:uuid:".toList.isPrefixOf s then parseHyphenated (s.drop 9) else none
  | _ => none

theorem hexDigit?_digitChar : ∀ d < 16, hexDigit? (Nat.digitChar d) = some d := by decide

/-- Reading `hexFixed` digit by digit. -/
theorem foldlM_hexFixed (w n acc : ℕ) :
    (hexFixed w n).foldlM (fun n c => (hexDigit? c).map (16 * n + ·)) acc =
      some (16 ^ w * acc + n % 16 ^ w) := by
  induction w generalizing n with
  | zero => simp [hexFixed, Nat.mod_one]
  | succ w ih =>
    have hdigit : hexDigit? (Nat.digitChar (n % 16)) = some (n % 16) :=
      hexDigit?_digitChar _ (Nat.mod_lt _ (by norm_num))
    have hmod : n % 16 ^ (w + 1) = n % 16 + 16 * (n / 16 % 16 ^ w) := by
      rw [pow_succ', Nat.mod_mul]
    rw [hexFixed, List.foldlM_append, ih, hmod]
    simp only [Option.bind_eq_bind, Option.bind_some, List.foldlM_cons, List.foldlM_nil, hdigit,
      Option.map_some, Option.pure_def, Option.some.injEq]
    ring

theorem parseSimple_hexFixed (u : Uuid) : parseSimple (hexFixed 32 u.value.toNat) = some u := by
  have hvalue : u.value.toNat % 16 ^ 32 = u.value.toNat :=
    Nat.mod_eq_of_lt (by have := u.value.isLt; omega)
  rw [parseSimple, if_pos (length_hexFixed ..), foldlM_hexFixed, hvalue, mul_zero, zero_add,
    Option.map_some, BitVec.ofNat_toNat, BitVec.setWidth_eq]

/-- The dashes of the text form. -/
theorem chars_dash (u : Uuid) : [8, 13, 18, 23].all (fun i => u.chars[i]? = some '-') = true := by
  simp [chars, List.getElem?_append, List.getElem?_cons]

theorem parseStr_chars (u : Uuid) : parseStr u.chars = some u := by
  have hlength := length_chars u
  have hparse : parseHyphenated u.chars = some u := by
    rw [parseHyphenated, if_pos ⟨hlength, chars_dash u⟩, filter_chars, parseSimple_hexFixed]
  rw [parseStr, hlength]
  exact hparse

theorem mem_chars {u : Uuid} {c : Char} (h : c ∈ u.chars) :
    c = '-' ∨ ∃ d < 16, c = Nat.digitChar d := by
  by_cases hdash : c = '-'
  · exact .inl hdash
  · have hmem : c ∈ u.chars.filter (· ≠ '-') := List.mem_filter.mpr ⟨h, decide_eq_true hdash⟩
    rw [filter_chars] at hmem
    exact .inr (hexFixed_hexDigit hmem)

theorem digitChar_ne_colon : ∀ d < 16, Nat.digitChar d ≠ ':' := by decide

theorem colon_notMem_chars (u : Uuid) : ':' ∉ u.chars := by
  intro h
  rcases mem_chars h with hdash | ⟨d, hd, hdigit⟩
  · cases hdash
  · exact digitChar_ne_colon d hd hdigit.symm

end Uuid

end FreeBox.Lib
