import FreeBox.Lib.Ecma

/-!
# UTF-8

The UTF-8 decoder of `TextDecoder` on the encoding of a text.

Results:
* `utf8Decode_textEncode`: the encoding of a text is decoded to the text.
* `textDecode_textEncode`, `textDecode_mark`: `TextDecoder` drops a byte order mark at the
  beginning of a text, and nothing else.
* `mem_textEncode`: an ASCII byte stands for its character.
-/

namespace FreeBox.Lib.Ecma

/-! ## One byte -/

theorem utf8Decode_ofNat {n : ℕ} (hn : n < 256) (p : Option Pending) (s : Bytes) :
    utf8Decode p (UInt8.ofNat n :: s) =
      (decodeByte p n).2 ++ utf8Decode (decodeByte p n).1 s := by
  have hbyte : (UInt8.ofNat n).toNat = n := UInt8.toNat_ofNat_of_lt' hn
  cases p <;> rw [utf8Decode, hbyte]

theorem leadByte_two {a : ℕ} (hlow : 2 ≤ a) (hhigh : a < 32) :
    leadByte (a + 0xC0) =
      (some { needed := 1, codePoint := a, lower := 0x80, upper := 0xBF }, []) := by
  unfold leadByte
  rw [if_neg (by omega), if_pos (by omega), show (a + 0xC0) % 32 = a by omega]

theorem leadByte_three {a : ℕ} (h : a < 16) :
    leadByte (a + 0xE0) =
      (some { needed := 2, codePoint := a, lower := if a = 0 then 0xA0 else 0x80
              upper := if a = 13 then 0x9F else 0xBF }, []) := by
  unfold leadByte
  rw [if_neg (by omega), if_neg (by omega), if_pos (by omega), show (a + 0xE0) % 16 = a by omega]
  simp only [show a + 0xE0 = 0xE0 ↔ a = 0 by omega, show a + 0xE0 = 0xED ↔ a = 13 by omega]

theorem leadByte_four {a : ℕ} (h : a < 5) :
    leadByte (a + 0xF0) =
      (some { needed := 3, codePoint := a, lower := if a = 0 then 0x90 else 0x80
              upper := if a = 4 then 0x8F else 0xBF }, []) := by
  unfold leadByte
  rw [if_neg (by omega), if_neg (by omega), if_neg (by omega), if_pos (by omega),
    show (a + 0xF0) % 8 = a by omega]
  simp only [show a + 0xF0 = 0xF0 ↔ a = 0 by omega, show a + 0xF0 = 0xF4 ↔ a = 4 by omega]

/-- A byte that continues the character and does not end it. -/
theorem decodeByte_more {p : Pending} {k : ℕ} (hk : k < 64) (hlow : p.lower ≤ k + 0x80)
    (hhigh : k + 0x80 ≤ p.upper) (hneeded : p.needed ≠ 1) :
    decodeByte (some p) (k + 0x80) =
      (some { needed := p.needed - 1, codePoint := p.codePoint * 64 + k, lower := 0x80
              upper := 0xBF }, []) := by
  unfold decodeByte
  dsimp only
  rw [if_pos ⟨hlow, hhigh⟩, if_neg hneeded, show (k + 0x80) % 64 = k by omega]

/-- The last byte of a character. -/
theorem decodeByte_last {p : Pending} {k : ℕ} (hk : k < 64) (hlow : p.lower ≤ k + 0x80)
    (hhigh : k + 0x80 ≤ p.upper) (hneeded : p.needed = 1) :
    decodeByte (some p) (k + 0x80) = (none, [Char.ofNat (p.codePoint * 64 + k)]) := by
  unfold decodeByte
  dsimp only
  rw [if_pos ⟨hlow, hhigh⟩, if_pos hneeded, show (k + 0x80) % 64 = k by omega]

/-! ## One character -/

theorem scalar (c : Char) : c.toNat < 0xD800 ∨ 0xDFFF < c.toNat ∧ c.toNat < 0x110000 := c.valid

/-- The four lengths of an encoding; the bounds of the second byte exclude what is no
    scalar value. -/
theorem utf8Decode_encodeChar (c : Char) (s : Bytes) :
    utf8Decode none (String.utf8EncodeChar c ++ s) = c :: utf8Decode none s := by
  have hvalid := scalar c
  have hchar : ∀ n, n = c.toNat → [Char.ofNat n] = [c] := by
    intro n hn
    rw [hn, Char.ofNat_toNat]
  have hval : c.val.toNat = c.toNat := rfl
  unfold String.utf8EncodeChar
  rw [hval]
  dsimp only
  split_ifs with h1 h2 h3
  · show utf8Decode none (UInt8.ofNat c.toNat :: s) = c :: utf8Decode none s
    rw [utf8Decode_ofNat (by omega), decodeByte, leadByte, if_pos (by omega), Char.ofNat_toNat]
    rfl
  · rw [Nat.mod_eq_of_lt (show c.toNat / 64 < 0x20 by omega), List.cons_append, List.cons_append,
      utf8Decode_ofNat (by omega), decodeByte, leadByte_two (by omega) (by omega),
      utf8Decode_ofNat (by omega), decodeByte_last (by omega) (by dsimp only; omega)
        (by dsimp only; omega) rfl]
    rw [hchar _ (by dsimp only; omega)]
    rfl
  · rw [Nat.mod_eq_of_lt (show c.toNat / 4096 < 0x10 by omega), List.cons_append,
      List.cons_append, List.cons_append, utf8Decode_ofNat (by omega), decodeByte,
      leadByte_three (by omega), utf8Decode_ofNat (by omega),
      decodeByte_more (by omega) (by dsimp only; split_ifs <;> omega)
        (by dsimp only; split_ifs <;> omega) (by dsimp only; omega),
      utf8Decode_ofNat (by omega),
      decodeByte_last (by omega) (by dsimp only; omega) (by dsimp only; omega) rfl]
    rw [hchar _ (by dsimp only; omega)]
    rfl
  · rw [Nat.mod_eq_of_lt (show c.toNat / 262144 < 0x08 by omega), List.cons_append,
      List.cons_append, List.cons_append, List.cons_append, utf8Decode_ofNat (by omega), decodeByte,
      leadByte_four (by omega), utf8Decode_ofNat (by omega),
      decodeByte_more (by omega) (by dsimp only; split_ifs <;> omega)
        (by dsimp only; split_ifs <;> omega) (by dsimp only; omega),
      utf8Decode_ofNat (by omega),
      decodeByte_more (by omega) (by dsimp only; omega) (by dsimp only; omega)
        (by dsimp only; omega),
      utf8Decode_ofNat (by omega),
      decodeByte_last (by omega) (by dsimp only; omega) (by dsimp only; omega) rfl]
    rw [hchar _ (by dsimp only; omega)]
    rfl

/-- A byte below `0x80` is a character of its own. -/
theorem mem_utf8EncodeChar {c : Char} {b : UInt8} (hb : b.toNat < 128)
    (h : b ∈ String.utf8EncodeChar c) : c.toNat = b.toNat := by
  have hvalid := scalar c
  have hbyte : ∀ n, n < 256 → b = UInt8.ofNat n → b.toNat = n := by
    intro n hn hb
    rw [hb]
    exact UInt8.toNat_ofNat_of_lt' hn
  have hval : c.val.toNat = c.toNat := rfl
  unfold String.utf8EncodeChar at h
  rw [hval] at h
  dsimp only at h
  split_ifs at h with h1 h2 h3
  · exact (hbyte _ (by omega) (List.mem_singleton.mp h)).symm
  all_goals
    exfalso
    simp only [List.mem_cons, List.not_mem_nil, or_false] at h
  · rcases h with h | h <;> have := hbyte _ (by omega) h <;> omega
  · rcases h with h | h | h <;> have := hbyte _ (by omega) h <;> omega
  · rcases h with h | h | h | h <;> have := hbyte _ (by omega) h <;> omega

/-! ## Texts -/

theorem textEncode_append (s t : List Char) : textEncode (s ++ t) = textEncode s ++ textEncode t :=
  List.flatMap_append

theorem utf8Decode_append (s : List Char) (b : Bytes) :
    utf8Decode none (textEncode s ++ b) = s ++ utf8Decode none b := by
  induction s with
  | nil => rfl
  | cons c s ih =>
    show utf8Decode none (String.utf8EncodeChar c ++ textEncode s ++ b) = _
    rw [List.append_assoc, utf8Decode_encodeChar, ih]
    rfl

theorem utf8Decode_textEncode (s : List Char) : utf8Decode none (textEncode s) = s := by
  have h := utf8Decode_append s []
  rwa [List.append_nil, utf8Decode, List.append_nil] at h

theorem mem_textEncode {s : List Char} {b : UInt8} (hb : b.toNat < 128)
    (h : b ∈ textEncode s) : Char.ofNat b.toNat ∈ s := by
  obtain ⟨c, hc, hmem⟩ := List.mem_flatMap.mp h
  rw [← mem_utf8EncodeChar hb hmem, Char.ofNat_toNat]
  exact hc

/-! ## The byte order mark -/

def byteOrderMark : Char := Char.ofNat 0xFEFF

theorem textEncode_byteOrderMark : textEncode [byteOrderMark] = [0xEF, 0xBB, 0xBF] := by
  decide

/-- A text whose bytes begin with those of the mark begins with the mark, because it is what
    they are decoded to. -/
theorem prefix_textEncode_iff {s : List Char} :
    [0xEF, 0xBB, 0xBF] <+: textEncode s ↔ ∃ t, s = byteOrderMark :: t := by
  rw [← textEncode_byteOrderMark]
  constructor
  · intro h
    obtain ⟨b, hb⟩ := h
    refine ⟨utf8Decode none b, ?_⟩
    rw [← utf8Decode_textEncode s, ← hb, utf8Decode_append]
    rfl
  · intro h
    obtain ⟨t, rfl⟩ := h
    exact ⟨textEncode t, (textEncode_append [byteOrderMark] t).symm⟩

theorem textDecode_mark (t : List Char) : textDecode (textEncode (byteOrderMark :: t)) = t := by
  have hbytes : textEncode (byteOrderMark :: t) = [0xEF, 0xBB, 0xBF] ++ textEncode t := by
    rw [← textEncode_byteOrderMark, ← textEncode_append]
    rfl
  unfold textDecode
  rw [if_pos (prefix_textEncode_iff.mpr ⟨t, rfl⟩), hbytes]
  exact utf8Decode_textEncode t

theorem textDecode_textEncode {s : List Char} (h : ∀ t, s ≠ byteOrderMark :: t) :
    textDecode (textEncode s) = s := by
  have hmark : ¬ [0xEF, 0xBB, 0xBF] <+: textEncode s := by
    intro hp
    obtain ⟨t, ht⟩ := prefix_textEncode_iff.mp hp
    exact h t ht
  rw [textDecode, if_neg hmark, utf8Decode_textEncode]

end FreeBox.Lib.Ecma
