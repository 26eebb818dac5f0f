import FreeBox.Lib.JsonText
import FreeBox.Lib.Utf8

/-!
# Strings of UTF-16 code units

A string of ECMAScript is a list of code units. `TextEncoder` takes it as a list of
characters, in which a surrogate without its partner is the replacement character.

Results:
* `toScalars_utf16`: the code units of a text are read as the text.
* `encodeUnits_utf16`: so both kinds of strings have the same UTF-8 bytes.
-/

namespace FreeBox.Lib.Ecma

open JsonText (utf16)

def isHigh (u : UInt16) : Bool := 0xD800 ≤ u.toNat ∧ u.toNat < 0xDC00

def isLow (u : UInt16) : Bool := 0xDC00 ≤ u.toNat ∧ u.toNat < 0xE000

/-- The character of a code unit that belongs to no pair. -/
def loneUnit (u : UInt16) : Char := if isHigh u || isLow u then replacement else Char.ofNat u.toNat

/-- The character of a surrogate pair. -/
def pairUnits (high low : UInt16) : Char :=
  Char.ofNat (0x10000 + (high.toNat - 0xD800) * 0x400 + (low.toNat - 0xDC00))

/-- The conversion to `USVString`. -/
def toScalars : List UInt16 → List Char
  | [] => []
  | [u] => [loneUnit u]
  | u :: v :: units =>
    if isHigh u && isLow v then pairUnits u v :: toScalars units
    else loneUnit u :: toScalars (v :: units)

/-- `TextEncoder.prototype.encode` of a string of code units. -/
def encodeUnits (units : List UInt16) : Bytes := textEncode (toScalars units)

theorem toScalars_cons {u : UInt16} (h : isHigh u = false) (units : List UInt16) :
    toScalars (u :: units) = loneUnit u :: toScalars units := by
  cases units with
  | nil => rfl
  | cons v units => simp only [toScalars, h, Bool.false_and, Bool.false_eq_true, if_false]

theorem toScalars_pair {u v : UInt16} (hu : isHigh u = true) (hv : isLow v = true)
    (units : List UInt16) : toScalars (u :: v :: units) = pairUnits u v :: toScalars units := by
  simp only [toScalars, hu, hv, Bool.and_self, if_true]

theorem toNat_ofNat16 {n : ℕ} (h : n < 0x10000) : (UInt16.ofNat n).toNat = n :=
  UInt16.toNat_ofNat_of_lt' h

/-- A character of one code unit is no surrogate. -/
theorem toScalars_utf16_one {c : Char} (hc : c.toNat < 0x10000) (units : List UInt16) :
    toScalars (.ofNat c.toNat :: units) = c :: toScalars units := by
  have hunit := toNat_ofNat16 hc
  have hscalar := scalar c
  have hhigh : isHigh (.ofNat c.toNat) = false := by
    rw [isHigh, hunit]
    exact decide_eq_false (by omega)
  have hlow : isLow (.ofNat c.toNat) = false := by
    rw [isLow, hunit]
    exact decide_eq_false (by omega)
  rw [toScalars_cons hhigh, loneUnit, hhigh, hlow, hunit]
  simp

/-- A character of two code units is a surrogate pair. -/
theorem toScalars_utf16_two {c : Char} (hc : ¬c.toNat < 0x10000) (units : List UInt16) :
    toScalars (.ofNat (0xD800 + (c.toNat - 0x10000) / 0x400) ::
      .ofNat (0xDC00 + c.toNat % 0x400) :: units) = c :: toScalars units := by
  have hscalar := scalar c
  have hu : (UInt16.ofNat (0xD800 + (c.toNat - 0x10000) / 0x400)).toNat =
      0xD800 + (c.toNat - 0x10000) / 0x400 := toNat_ofNat16 (by omega)
  have hv : (UInt16.ofNat (0xDC00 + c.toNat % 0x400)).toNat = 0xDC00 + c.toNat % 0x400 :=
    toNat_ofNat16 (by omega)
  have hcode : 0x10000 + (0xD800 + (c.toNat - 0x10000) / 0x400 - 0xD800) * 0x400 +
      (0xDC00 + c.toNat % 0x400 - 0xDC00) = c.toNat := by omega
  rw [toScalars_pair]
  · rw [pairUnits, hu, hv, hcode, Char.ofNat_toNat]
  · rw [isHigh, hu]
    exact decide_eq_true (by omega)
  · rw [isLow, hv]
    exact decide_eq_true (by omega)

theorem toScalars_utf16 (s : List Char) : toScalars (s.flatMap utf16) = s := by
  induction s with
  | nil => rfl
  | cons c s ih =>
    rw [List.flatMap_cons, utf16]
    split_ifs with hc
    · rw [List.singleton_append, toScalars_utf16_one hc, ih]
    · rw [List.cons_append, List.singleton_append, toScalars_utf16_two hc, ih]

theorem encodeUnits_utf16 (s : List Char) : encodeUnits (s.flatMap utf16) = textEncode s := by
  rw [encodeUnits, toScalars_utf16]

end FreeBox.Lib.Ecma
