import FreeBox.Lib.Double
import FreeBox.Lib.Json

/-!
# ECMAScript and the web platform

The part of the language and of the browser's library that a program for byte
strings uses. A number is a finite binary64 number as a rational; an operation on
numbers that may be inexact is written with `Double.fl`. A typed array is the list of
its bytes.

Results:
* `toUint_natCast`, `uint8ArrayFrom_arrayFrom`: conversions of natural numbers.
* `numberText_natCast`, `length_numberText_le`: the texts of numbers.
* `textEncode_ascii`, `textDecode_toAscii`: an ASCII text is its bytes.
-/

namespace FreeBox.Lib.Ecma

open Double Json

/-! ## Numbers and typed arrays -/

/-- `ToUint8` and `ToUint32`: the integral part modulo `2^w`. -/
def toUint (w : ℕ) (x : ℚ) : ℕ := (x.num.tdiv x.den % 2 ^ w).toNat

/-- The longest `ArrayBuffer`. -/
def maxByteLength : ℕ := 2 ^ 53 - 1

/-- The error of a byte array that cannot be allocated. -/
def allocationError : String := "RangeError: Array buffer allocation failed"

/-- `Blob.prototype.arrayBuffer`. -/
def arrayBuffer (content : Bytes) : Except String Bytes :=
  if content.length ≤ maxByteLength then .ok content else .error allocationError

/-- `Blob.prototype.slice`; `start` and `stop` are not negative. -/
def slice (content : Bytes) (start stop : ℚ) : Bytes :=
  (content.take (roundEven stop).toNat).drop (roundEven start).toNat

/-- `new Uint8Array(length)`. -/
def newUint8Array (length : ℚ) : Except String Bytes :=
  if length ≤ maxByteLength then .ok (List.replicate ⌊length⌋.toNat 0) else .error allocationError

/-- `Uint8Array.prototype.set`. -/
def setAt (buffer part : Bytes) (offset : ℚ) : Except String Bytes :=
  if ⌊offset⌋.toNat + part.length ≤ buffer.length then
    .ok (buffer.take ⌊offset⌋.toNat ++ (part ++ buffer.drop (⌊offset⌋.toNat + part.length)))
  else .error "RangeError: offset is out of bounds"

/-- `DataView.prototype.setUint32` in big-endian order. -/
def setUint32 (view : Bytes) (offset : ℕ) (x : ℚ) : Bytes :=
  view.take offset ++ (beBytes 4 (toUint 32 x) ++ view.drop (offset + 4))

/-- `Array.from` of a byte array. -/
def arrayFrom (b : Bytes) : List ℚ := b.map fun x => (x.toNat : ℚ)

/-- `Uint8Array.from`. -/
def uint8ArrayFrom (l : List ℚ) : Bytes := l.map fun x => UInt8.ofNat (toUint 8 x)

@[simp] theorem floor_natCast_toNat (n : ℕ) : ⌊(n : ℚ)⌋.toNat = n := by
  rw [Int.floor_natCast, Int.toNat_natCast]

theorem toUint_natCast (w n : ℕ) : toUint w n = n % 2 ^ w := by
  have hden : (n : ℤ).tdiv ((n : ℚ).den : ℤ) = n := by
    rw [Rat.den_natCast, Nat.cast_one, Int.tdiv_one]
  rw [toUint, Rat.num_natCast, hden]
  exact_mod_cast Int.toNat_natCast (n % 2 ^ w)

theorem uint8ArrayFrom_arrayFrom (b : Bytes) : uint8ArrayFrom (arrayFrom b) = b := by
  rw [uint8ArrayFrom, arrayFrom, List.map_map]
  refine (List.map_congr_left fun x _ => ?_).trans (List.map_id b)
  rw [Function.comp_apply, toUint_natCast, Nat.mod_eq_of_lt x.toNat_lt, UInt8.ofNat_toNat]
  rfl

/-! ## JSON -/

/-- Of the multiples of `10^e` that round to `x` one nearest to it, for the greatest
exponent `e` up to the given one at which there is such a multiple. Of two it is the one
whose last digit before the zeros is even. -/
def shortest (x : ℚ) : (e : ℕ) → ℕ
  | 0 => ⌊x⌋.toNat
  | e + 1 =>
    let digits := ⌊x / 10 ^ (e + 1)⌋.toNat
    let below := digits * 10 ^ (e + 1)
    let above := (digits + 1) * 10 ^ (e + 1)
    if fl below = x ∧ (fl above ≠ x ∨ x - below < above - x ∨
        x - below = above - x ∧ digits % 2 = 0) then below
    else if fl above = x then above
    else shortest x e

/-- `Number::toString` of a natural number below `10^21`: as few digits as determine the
number, and zeros. -/
def numberText (x : ℚ) : List Char := number (shortest x 20)

theorem shortest_rounds (x : ℚ) (e : ℕ) : shortest x e = ⌊x⌋.toNat ∨ fl (shortest x e) = x := by
  induction e with
  | zero => exact .inl rfl
  | succ e ih =>
    rw [shortest]
    split_ifs with hbelow habove
    · exact .inr hbelow.1
    · exact .inr habove
    · exact ih

/-- Natural numbers below `2^53` are printed with all their digits. -/
theorem shortest_natCast {n : ℕ} (h : n < 2 ^ 53) : shortest n 20 = n := by
  rcases shortest_rounds n 20 with hfloor | hfl
  · rw [hfloor, floor_natCast_toNat]
  · by_cases hlt : shortest n 20 < 2 ^ 53
    · rw [fl_natCast hlt] at hfl
      exact_mod_cast hfl
    · have hle : (2 : ℚ) ^ 53 ≤ shortest n 20 := by exact_mod_cast Nat.le_of_not_lt hlt
      have hfar := two_pow_le_fl hle
      rw [hfl] at hfar
      exact absurd (by exact_mod_cast hfar : 2 ^ 53 ≤ n) (Nat.not_le.mpr h)

theorem numberText_natCast {n : ℕ} (h : n < 2 ^ 53) : numberText n = number n := by
  rw [numberText, shortest_natCast h]

/-- A number that fits in 66 bits has at most 20 digits. -/
theorem length_numberText_le {x : ℚ} (h : x < 2 ^ 66) : (numberText x).length ≤ 20 := by
  have hlt : shortest x 20 < 10 ^ 20 := by
    rcases shortest_rounds x 20 with hfloor | hfl
    · have hint : ⌊x⌋ < 2 ^ 66 := Int.floor_lt.mpr (by exact_mod_cast h)
      rw [hfloor]
      omega
    · by_contra hge
      have hle : (2 : ℚ) ^ 66 ≤ shortest x 20 := by
        exact_mod_cast le_trans (by norm_num : 2 ^ 66 ≤ 10 ^ 20) (Nat.le_of_not_lt hge)
      have hfar := two_pow_le_fl hle
      rw [hfl] at hfar
      linarith
  exact length_number_le (by decide) hlt

example : numberText (2 ^ 64) = "18446744073709552000".toList := by decide +kernel

inductive JsonValue
  | number (x : ℚ)
  | array (l : List ℚ)

/-- The elements of an array are natural numbers below `2^53`. -/
def JsonValue.text : JsonValue → List Char
  | .number x => numberText x
  | .array l => Json.array (l.map fun x => ⌊x⌋.toNat)

/-- The members of an object after the first one, and the closing brace. -/
def membersTail : List (String × JsonValue) → List Char
  | [] => ['}']
  | (name, value) :: members =>
    ',' :: '"' :: (name.toList ++ ('"' :: ':' :: (value.text ++ membersTail members)))

/-- `JSON.stringify` of an object whose names need no escapes. -/
def stringify : List (String × JsonValue) → List Char
  | [] => ['{', '}']
  | (name, value) :: members =>
    '{' :: '"' :: (name.toList ++ ('"' :: ':' :: (value.text ++ membersTail members)))

theorem text_array_arrayFrom (b : Bytes) :
    (JsonValue.array (arrayFrom b)).text = Json.array (b.map UInt8.toNat) := by
  rw [JsonValue.text, arrayFrom, List.map_map]
  exact congrArg Json.array (List.map_congr_left fun x _ => floor_natCast_toNat x.toNat)

/-! ## Text -/

/-- A character whose bytes have been read in part: how many are missing, the bits so
    far, and between which bounds the next byte is. -/
structure Pending where
  needed : ℕ
  codePoint : ℕ
  lower : ℕ
  upper : ℕ

def replacement : Char := Char.ofNat 0xFFFD

/-- The UTF-8 decoder at the first byte of a character. -/
def leadByte (b : ℕ) : Option Pending × List Char :=
  if b < 0x80 then (none, [Char.ofNat b])
  else if 0xC2 ≤ b ∧ b ≤ 0xDF then
    (some { needed := 1, codePoint := b % 32, lower := 0x80, upper := 0xBF }, [])
  else if 0xE0 ≤ b ∧ b ≤ 0xEF then
    (some { needed := 2, codePoint := b % 16, lower := if b = 0xE0 then 0xA0 else 0x80
            upper := if b = 0xED then 0x9F else 0xBF }, [])
  else if 0xF0 ≤ b ∧ b ≤ 0xF4 then
    (some { needed := 3, codePoint := b % 8, lower := if b = 0xF0 then 0x90 else 0x80
            upper := if b = 0xF4 then 0x8F else 0xBF }, [])
  else (none, [replacement])

/-- The decoder at one byte. A byte that does not continue a character begins a new one. -/
def decodeByte : Option Pending → ℕ → Option Pending × List Char
  | none, b => leadByte b
  | some p, b =>
    if p.lower ≤ b ∧ b ≤ p.upper then
      let codePoint := p.codePoint * 64 + b % 64
      if p.needed = 1 then (none, [Char.ofNat codePoint])
      else (some { needed := p.needed - 1, codePoint, lower := 0x80, upper := 0xBF }, [])
    else
      let (p', cs) := leadByte b
      (p', replacement :: cs)

def utf8Decode : Option Pending → Bytes → List Char
  | none, [] => []
  | some _, [] => [replacement]
  | p, b :: s =>
    let (p, cs) := decodeByte p b.toNat
    cs ++ utf8Decode p s

/-- `TextDecoder.prototype.decode`: without a byte order mark. -/
def textDecode (b : Bytes) : List Char :=
  if [0xEF, 0xBB, 0xBF] <+: b then utf8Decode none (b.drop 3) else utf8Decode none b

/-- `TextEncoder.prototype.encode`. -/
def textEncode (s : List Char) : Bytes := s.flatMap String.utf8EncodeChar

theorem textEncode_ascii {s : List Char} (h : ∀ c ∈ s, c.toNat < 128) :
    textEncode s = toAscii s := by
  induction s with
  | nil => rfl
  | cons c s ih =>
    have hc : c.val.toNat ≤ 127 := Nat.le_of_lt_succ (h c List.mem_cons_self)
    have htail : textEncode s = toAscii s := ih fun d hd => h d (List.mem_cons_of_mem c hd)
    have hhead : String.utf8EncodeChar c = [UInt8.ofNat c.toNat] := by
      rw [String.utf8EncodeChar, if_pos hc]
      rfl
    rw [textEncode, List.flatMap_cons, hhead, ← textEncode, htail]
    rfl

theorem utf8Decode_toAscii {s : List Char} (h : ∀ c ∈ s, c.toNat < 128) :
    utf8Decode none (toAscii s) = s := by
  induction s with
  | nil => rfl
  | cons c s ih =>
    have hc := h c List.mem_cons_self
    have hbyte : (UInt8.ofNat c.toNat).toNat = c.toNat :=
      UInt8.toNat_ofNat_of_lt' (by rw [UInt8.size]; omega)
    have hlead : leadByte c.toNat = (none, [c]) := by
      rw [leadByte, if_pos hc, Char.ofNat_toNat]
    have htail : utf8Decode none (toAscii s) = s :=
      ih fun d hd => h d (List.mem_cons_of_mem c hd)
    show (decodeByte none (UInt8.ofNat c.toNat).toNat).2 ++
      utf8Decode (decodeByte none (UInt8.ofNat c.toNat).toNat).1 (toAscii s) = c :: s
    rw [hbyte, decodeByte, hlead, htail]
    rfl

theorem textDecode_toAscii {s : List Char} (h : ∀ c ∈ s, c.toNat < 128) :
    textDecode (toAscii s) = s := by
  have hmark : ¬ [0xEF, 0xBB, 0xBF] <+: toAscii s := by
    cases s with
    | nil => exact fun hp => List.cons_ne_nil _ _ (List.prefix_nil.mp hp)
    | cons c s =>
      intro hp
      have hc := h c List.mem_cons_self
      have hfirst : (0xEF : UInt8) = UInt8.ofNat c.toNat := (List.cons_prefix_cons.mp hp).1
      have hval := congrArg UInt8.toNat hfirst
      rw [UInt8.toNat_ofNat_of_lt' (by rw [UInt8.size]; omega)] at hval
      have : (0xEF : UInt8).toNat = 239 := rfl
      omega
  rw [textDecode, if_neg hmark, utf8Decode_toAscii h]

end FreeBox.Lib.Ecma
