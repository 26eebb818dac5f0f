import FreeBox.Lib.Bytes

/-!
# Base64

`base64::engine::general_purpose::STANDARD`: the alphabet with `+` and `/`,
padding required, unused low bits required to be zero; and the URL-safe alphabet
without padding.

Results:
* `decode_encode`: decoding returns the encoded bytes.
* `forgivingDecode_encode`: so does the forgiving decoding of web browsers.
* `forgivingDecode_encodeUrl`: it does so for the URL-safe alphabet, too, when the bytes
  are ASCII and none ends in the six bits of one of the two characters that differ.
-/

namespace FreeBox.Lib.Base64

/-- The characters of the values `0` to `63`. -/
def alphabet : List Char :=
  "ABCDEFGHIJKLMNOPQRSTUVWXYZabcdefghijklmnopqrstuvwxyz0123456789+/".toList

/-- The character of a six-bit value. -/
def charOf (n : ℕ) : Char := alphabet.getD n '='

/-- The value of a character of the alphabet. -/
def valueOf (c : Char) : Option ℕ := alphabet.idxOf? c

/-- `STANDARD.encode`: three bytes give four characters. -/
def encode : Bytes → List Char
  | [] => []
  | [a] => [charOf (a.toNat / 4), charOf (a.toNat % 4 * 16), '=', '=']
  | [a, b] =>
    [charOf (a.toNat / 4), charOf (a.toNat % 4 * 16 + b.toNat / 16),
      charOf (b.toNat % 16 * 4), '=']
  | a :: b :: c :: rest =>
    charOf (a.toNat / 4) :: charOf (a.toNat % 4 * 16 + b.toNat / 16) ::
      charOf (b.toNat % 16 * 4 + c.toNat / 64) :: charOf (c.toNat % 64) :: encode rest

/-- `STANDARD.decode`: the last group may be padded, and then the bits that
    belong to no byte are zero. -/
def decode : List Char → Option Bytes
  | [] => some []
  | [c₁, c₂, '=', '='] =>
    (valueOf c₁).bind fun v₁ => (valueOf c₂).bind fun v₂ =>
      if v₂ % 16 = 0 then some [.ofNat (v₁ * 4 + v₂ / 16)] else none
  | [c₁, c₂, c₃, '='] =>
    (valueOf c₁).bind fun v₁ => (valueOf c₂).bind fun v₂ => (valueOf c₃).bind fun v₃ =>
      if v₃ % 4 = 0 then
        some [.ofNat (v₁ * 4 + v₂ / 16), .ofNat (v₂ % 16 * 16 + v₃ / 4)]
      else none
  | c₁ :: c₂ :: c₃ :: c₄ :: rest =>
    (valueOf c₁).bind fun v₁ => (valueOf c₂).bind fun v₂ => (valueOf c₃).bind fun v₃ =>
      (valueOf c₄).bind fun v₄ => (decode rest).map fun bytes =>
        .ofNat (v₁ * 4 + v₂ / 16) :: .ofNat (v₂ % 16 * 16 + v₃ / 4) ::
          .ofNat (v₃ % 4 * 64 + v₄) :: bytes
  | _ => none

/-! ## The round trip -/

@[simp] theorem valueOf_charOf : ∀ n < 64, valueOf (charOf n) = some n := by decide +kernel

theorem charOf_ne_pad : ∀ n < 64, charOf n ≠ '=' := by decide +kernel

/-- A byte is put together again from its high and its low bits. -/
theorem ofNat_eq {a : UInt8} {n : ℕ} (h : n = a.toNat) : UInt8.ofNat n = a := by
  rw [h, UInt8.ofNat_toNat]

theorem decode_encode (bytes : Bytes) : decode (encode bytes) = some bytes := by
  induction bytes using encode.induct with
  | case1 => rfl
  | case2 a =>
    have ha := a.toNat_lt
    rw [encode, decode, valueOf_charOf _ (by omega), valueOf_charOf _ (by omega), Option.bind_some,
      Option.bind_some, if_pos (by omega), ofNat_eq (a := a) (by omega)]
  | case3 a b =>
    have ha := a.toNat_lt
    have hb := b.toNat_lt
    rw [encode, decode, valueOf_charOf _ (by omega), valueOf_charOf _ (by omega),
      valueOf_charOf _ (by omega), Option.bind_some, Option.bind_some, Option.bind_some,
      if_pos (by omega), ofNat_eq (a := a) (by omega), ofNat_eq (a := b) (by omega)]
    exact charOf_ne_pad _ (by omega)
  | case4 a b c rest ih =>
    have ha := a.toNat_lt
    have hb := b.toNat_lt
    have hc := c.toNat_lt
    rw [encode, decode, valueOf_charOf _ (by omega), valueOf_charOf _ (by omega),
      valueOf_charOf _ (by omega), valueOf_charOf _ (by omega), ih, Option.bind_some,
      Option.bind_some, Option.bind_some, Option.bind_some, Option.map_some,
      ofNat_eq (a := a) (by omega), ofNat_eq (a := b) (by omega), ofNat_eq (a := c) (by omega)]
    · intro _ h; exact absurd h (charOf_ne_pad _ (by omega))
    · intro h; exact absurd h (charOf_ne_pad _ (by omega))

/-! ## Forgiving decoding -/

/-- ASCII white space. -/
def isSpace (c : Char) : Bool := c ∈ ['\t', '\n', '\x0c', '\r', ' ']

/-- Without one or two `=` at the end. -/
def stripPad : List Char → List Char
  | ['=', '='] => []
  | ['='] => []
  | c :: s => c :: stripPad s
  | [] => []

/-- Groups of four characters, the last one possibly shorter; bits that belong to
    no byte are dropped. -/
def decodeGroups : List Char → Option Bytes
  | [] => some []
  | [_] => none
  | [c₁, c₂] =>
    (valueOf c₁).bind fun v₁ => (valueOf c₂).map fun v₂ => [.ofNat (v₁ * 4 + v₂ / 16)]
  | [c₁, c₂, c₃] =>
    (valueOf c₁).bind fun v₁ => (valueOf c₂).bind fun v₂ => (valueOf c₃).map fun v₃ =>
      [.ofNat (v₁ * 4 + v₂ / 16), .ofNat (v₂ % 16 * 16 + v₃ / 4)]
  | c₁ :: c₂ :: c₃ :: c₄ :: rest =>
    (valueOf c₁).bind fun v₁ => (valueOf c₂).bind fun v₂ => (valueOf c₃).bind fun v₃ =>
      (valueOf c₄).bind fun v₄ => (decodeGroups rest).map fun bytes =>
        .ofNat (v₁ * 4 + v₂ / 16) :: .ofNat (v₂ % 16 * 16 + v₃ / 4) ::
          .ofNat (v₃ % 4 * 64 + v₄) :: bytes

/-- Forgiving-base64 decode, as `atob` does it: white space is ignored and the
    padding may be missing. -/
def forgivingDecode (s : List Char) : Option Bytes :=
  let data := s.filter fun c => ¬ isSpace c
  decodeGroups (if data.length % 4 = 0 then stripPad data else data)

theorem charOf_not_isSpace : ∀ n < 64, isSpace (charOf n) = false := by decide +kernel

theorem stripPad_charOf {n : ℕ} (h : n < 64) (s : List Char) :
    stripPad (charOf n :: s) = charOf n :: stripPad s := by
  rw [stripPad]
  · intro hpad; exact absurd hpad (charOf_ne_pad n h)
  · intro hpad; exact absurd hpad (charOf_ne_pad n h)

theorem length_encode (bytes : Bytes) : (encode bytes).length = 4 * ((bytes.length + 2) / 3) := by
  induction bytes using encode.induct with
  | case1 => rfl
  | case2 a => simp [encode]
  | case3 a b => simp [encode]
  | case4 a b c rest ih =>
    simp only [encode, List.length_cons, ih]
    omega

theorem length_encode_mod (bytes : Bytes) : (encode bytes).length % 4 = 0 := by
  rw [length_encode, Nat.mul_mod_right]

theorem mem_encode {bytes : Bytes} {c : Char} (h : c ∈ encode bytes) :
    c = '=' ∨ ∃ n < 64, c = charOf n := by
  induction bytes using encode.induct with
  | case1 => cases h
  | case2 a =>
    have ha := a.toNat_lt
    simp only [encode, List.mem_cons, List.not_mem_nil, or_false] at h
    rcases h with rfl | rfl | rfl | rfl
    · exact .inr ⟨_, by omega, rfl⟩
    · exact .inr ⟨_, by omega, rfl⟩
    · exact .inl rfl
    · exact .inl rfl
  | case3 a b =>
    have ha := a.toNat_lt
    have hb := b.toNat_lt
    simp only [encode, List.mem_cons, List.not_mem_nil, or_false] at h
    rcases h with rfl | rfl | rfl | rfl
    · exact .inr ⟨_, by omega, rfl⟩
    · exact .inr ⟨_, by omega, rfl⟩
    · exact .inr ⟨_, by omega, rfl⟩
    · exact .inl rfl
  | case4 a b c' rest ih =>
    have ha := a.toNat_lt
    have hb := b.toNat_lt
    have hc := c'.toNat_lt
    simp only [encode, List.mem_cons] at h
    rcases h with rfl | rfl | rfl | rfl | h
    · exact .inr ⟨_, by omega, rfl⟩
    · exact .inr ⟨_, by omega, rfl⟩
    · exact .inr ⟨_, by omega, rfl⟩
    · exact .inr ⟨_, by omega, rfl⟩
    · exact ih h

theorem not_isSpace_of_mem_encode {bytes : Bytes} {c : Char} (h : c ∈ encode bytes) :
    isSpace c = false := by
  rcases mem_encode h with rfl | ⟨n, hn, rfl⟩
  · decide
  · exact charOf_not_isSpace n hn

theorem decodeGroups_encode (bytes : Bytes) :
    decodeGroups (stripPad (encode bytes)) = some bytes := by
  induction bytes using encode.induct with
  | case1 => rfl
  | case2 a =>
    have ha := a.toNat_lt
    rw [encode, stripPad_charOf (by omega), stripPad_charOf (by omega), stripPad, decodeGroups,
      valueOf_charOf _ (by omega), valueOf_charOf _ (by omega), Option.bind_some, Option.map_some,
      ofNat_eq (a := a) (by omega)]
  | case3 a b =>
    have ha := a.toNat_lt
    have hb := b.toNat_lt
    rw [encode, stripPad_charOf (by omega), stripPad_charOf (by omega), stripPad_charOf (by omega),
      stripPad, decodeGroups, valueOf_charOf _ (by omega), valueOf_charOf _ (by omega),
      valueOf_charOf _ (by omega), Option.bind_some, Option.bind_some, Option.map_some,
      ofNat_eq (a := a) (by omega), ofNat_eq (a := b) (by omega)]
  | case4 a b c rest ih =>
    have ha := a.toNat_lt
    have hb := b.toNat_lt
    have hc := c.toNat_lt
    rw [encode, stripPad_charOf (by omega), stripPad_charOf (by omega), stripPad_charOf (by omega),
      stripPad_charOf (by omega), decodeGroups, valueOf_charOf _ (by omega),
      valueOf_charOf _ (by omega), valueOf_charOf _ (by omega), valueOf_charOf _ (by omega), ih,
      Option.bind_some, Option.bind_some, Option.bind_some, Option.bind_some, Option.map_some,
      ofNat_eq (a := a) (by omega), ofNat_eq (a := b) (by omega), ofNat_eq (a := c) (by omega)]

theorem forgivingDecode_encode (bytes : Bytes) : forgivingDecode (encode bytes) = some bytes := by
  have hspace : (encode bytes).filter (fun c => ¬ isSpace c) = encode bytes := by
    rw [List.filter_eq_self]
    intro c hc
    rw [not_isSpace_of_mem_encode hc]
    rfl
  rw [forgivingDecode, hspace, if_pos (length_encode_mod bytes), decodeGroups_encode]

/-! ## The URL-safe alphabet -/

/-- The URL-safe characters of the values `0` to `63`. -/
def urlAlphabet : List Char :=
  "ABCDEFGHIJKLMNOPQRSTUVWXYZabcdefghijklmnopqrstuvwxyz0123456789-_".toList

def urlCharOf (n : ℕ) : Char := urlAlphabet.getD n '='

/-- `URL_SAFE_NO_PAD.encode`. -/
def encodeUrl : Bytes → List Char
  | [] => []
  | [a] => [urlCharOf (a.toNat / 4), urlCharOf (a.toNat % 4 * 16)]
  | [a, b] =>
    [urlCharOf (a.toNat / 4), urlCharOf (a.toNat % 4 * 16 + b.toNat / 16),
      urlCharOf (b.toNat % 16 * 4)]
  | a :: b :: c :: rest =>
    urlCharOf (a.toNat / 4) :: urlCharOf (a.toNat % 4 * 16 + b.toNat / 16) ::
      urlCharOf (b.toNat % 16 * 4 + c.toNat / 64) :: urlCharOf (c.toNat % 64) :: encodeUrl rest

/-- The two alphabets differ in the last two characters only. -/
theorem urlCharOf_eq : ∀ n < 62, urlCharOf n = charOf n := by decide +kernel

theorem urlCharOf_ne : ∀ n < 64, urlCharOf n ≠ '=' ∧ urlCharOf n ≠ '.' := by decide +kernel

theorem urlCharOf_not_isSpace : ∀ n < 64, isSpace (urlCharOf n) = false := by decide +kernel

theorem mem_encodeUrl {bytes : Bytes} {c : Char} (h : c ∈ encodeUrl bytes) :
    ∃ n < 64, c = urlCharOf n := by
  induction bytes using encodeUrl.induct with
  | case1 => cases h
  | case2 a =>
    have ha := a.toNat_lt
    simp only [encodeUrl, List.mem_cons, List.not_mem_nil, or_false] at h
    rcases h with rfl | rfl
    · exact ⟨_, by omega, rfl⟩
    · exact ⟨_, by omega, rfl⟩
  | case3 a b =>
    have ha := a.toNat_lt
    have hb := b.toNat_lt
    simp only [encodeUrl, List.mem_cons, List.not_mem_nil, or_false] at h
    rcases h with rfl | rfl | rfl
    · exact ⟨_, by omega, rfl⟩
    · exact ⟨_, by omega, rfl⟩
    · exact ⟨_, by omega, rfl⟩
  | case4 a b c' rest ih =>
    have ha := a.toNat_lt
    have hb := b.toNat_lt
    have hc := c'.toNat_lt
    simp only [encodeUrl, List.mem_cons] at h
    rcases h with rfl | rfl | rfl | rfl | h
    · exact ⟨_, by omega, rfl⟩
    · exact ⟨_, by omega, rfl⟩
    · exact ⟨_, by omega, rfl⟩
    · exact ⟨_, by omega, rfl⟩
    · exact ih h

theorem notMem_encodeUrl (bytes : Bytes) : '=' ∉ encodeUrl bytes ∧ '.' ∉ encodeUrl bytes := by
  constructor
  · intro h
    obtain ⟨n, hn, hc⟩ := mem_encodeUrl h
    exact (urlCharOf_ne n hn).1 hc.symm
  · intro h
    obtain ⟨n, hn, hc⟩ := mem_encodeUrl h
    exact (urlCharOf_ne n hn).2 hc.symm

theorem stripPad_eq_self {s : List Char} (h : '=' ∉ s) : stripPad s = s := by
  induction s with
  | nil => rfl
  | cons c s ih =>
    have hc : c ≠ '=' := fun hc => h (hc ▸ List.mem_cons_self)
    rw [stripPad, ih fun hs => h (List.mem_cons_of_mem c hs)]
    · intro hpad; exact absurd hpad hc
    · intro hpad; exact absurd hpad hc

/-- Only the third byte of a group can give the value 62 or 63, and only as its last six
    bits, when all bytes are ASCII. -/
theorem encodeUrl_eq {bytes : Bytes} (h : ∀ b ∈ bytes, b.toNat < 128 ∧ b.toNat % 64 < 62) :
    encodeUrl bytes = stripPad (encode bytes) := by
  induction bytes using encode.induct with
  | case1 => rfl
  | case2 a =>
    have ha := h a (by simp)
    rw [encodeUrl, encode, stripPad_charOf (by omega), stripPad_charOf (by omega), stripPad,
      urlCharOf_eq _ (by omega), urlCharOf_eq _ (by omega)]
  | case3 a b =>
    have ha := h a (by simp)
    have hb := h b (by simp)
    rw [encodeUrl, encode, stripPad_charOf (by omega), stripPad_charOf (by omega),
      stripPad_charOf (by omega), stripPad, urlCharOf_eq _ (by omega), urlCharOf_eq _ (by omega),
      urlCharOf_eq _ (by omega)]
  | case4 a b c rest ih =>
    have ha := h a (by simp)
    have hb := h b (by simp)
    have hc := h c (by simp)
    have hrest : ∀ d ∈ rest, d.toNat < 128 ∧ d.toNat % 64 < 62 := by
      intro d hd
      exact h d (by simp [hd])
    rw [encodeUrl, encode, stripPad_charOf (by omega), stripPad_charOf (by omega),
      stripPad_charOf (by omega), stripPad_charOf (by omega), urlCharOf_eq _ (by omega),
      urlCharOf_eq _ (by omega), urlCharOf_eq _ (by omega), urlCharOf_eq _ (by omega), ih hrest]

theorem forgivingDecode_encodeUrl {bytes : Bytes}
    (h : ∀ b ∈ bytes, b.toNat < 128 ∧ b.toNat % 64 < 62) :
    forgivingDecode (encodeUrl bytes) = some bytes := by
  have hspace : (encodeUrl bytes).filter (fun c => ¬ isSpace c) = encodeUrl bytes := by
    rw [List.filter_eq_self]
    intro c hc
    obtain ⟨n, hn, rfl⟩ := mem_encodeUrl hc
    rw [urlCharOf_not_isSpace n hn]
    rfl
  rw [forgivingDecode, hspace, stripPad_eq_self (notMem_encodeUrl bytes).1, ite_self,
    encodeUrl_eq h, decodeGroups_encode]

/-- A question mark as the third byte. -/
example : forgivingDecode (encodeUrl [97, 98, 63]) = none := by decide

end FreeBox.Lib.Base64
