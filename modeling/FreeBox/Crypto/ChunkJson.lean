import FreeBox.Crypto.Encryption
import FreeBox.Lib.Json

/-!
# The JSON body of a chunk

`ChunkCiphertext` derives `Serialize` and `Deserialize`; the command line client
sends the text that `serde_json::to_vec` writes.

Results:
* `fromSlice_toVec`: the body determines the record.
* `length_toVec_le`: how long the body can be.
-/

namespace FreeBox.Crypto.ChunkCiphertext

open FreeBox.Lib FreeBox.Lib.Json

/-- The texts before the values of the three fields. -/
def indexLead : List Char := ['{', '"', 'i', 'n', 'd', 'e', 'x', '"', ':']
def nonceLead : List Char := [',', '"', 'n', 'o', 'n', 'c', 'e', '"', ':']
def ciphertextLead : List Char :=
  [',', '"', 'c', 'i', 'p', 'h', 'e', 'r', 't', 'e', 'x', 't', '"', ':']

/-- The JSON text of a record. -/
def toJson (c : ChunkCiphertext) : List Char :=
  indexLead ++ (number c.index.toNat ++ (nonceLead ++ (array (c.nonce.map UInt8.toNat) ++
    (ciphertextLead ++ (array (c.ciphertext.map UInt8.toNat) ++ ['}'])))))

/-- The text with an index that need not fit in 64 bits. -/
def chunkText (index : ℕ) (nonce ciphertext : Bytes) : List Char :=
  indexLead ++ (number index ++ (nonceLead ++ (array (nonce.map UInt8.toNat) ++
    (ciphertextLead ++ (array (ciphertext.map UInt8.toNat) ++ ['}'])))))

theorem toJson_eq (c : ChunkCiphertext) :
    c.toJson = chunkText c.index.toNat c.nonce c.ciphertext := rfl

/-- `serde_json::to_vec`. -/
def toVec (c : ChunkCiphertext) : Bytes := toAscii c.toJson

/-- The record of a JSON text without white space, its fields in the order of the
    declaration. -/
def ofJson (s : List Char) : Option ChunkCiphertext :=
  (expect indexLead s).bind fun s =>
    let (index, s) := readNumber 0 s
    (expect nonceLead s).bind fun s => (readArray s).bind fun (nonce, s) =>
      (expect ciphertextLead s).bind fun s => (readArray s).bind fun (ciphertext, s) =>
        if s = ['}'] then
          some { index := .ofNat index, nonce := nonce.map UInt8.ofNat,
                 ciphertext := ciphertext.map UInt8.ofNat }
        else none

/-- `serde_json::from_slice` on the bodies that `to_vec` writes. -/
def fromSlice (b : Bytes) : Option ChunkCiphertext := ofJson (ofAscii b)

theorem map_ofNat_toNat (b : Bytes) : (b.map UInt8.toNat).map UInt8.ofNat = b := by
  rw [List.map_map]
  exact (List.map_congr_left fun x _ => UInt8.ofNat_toNat).trans (List.map_id b)

theorem ofJson_toJson (c : ChunkCiphertext) : ofJson c.toJson = some c := by
  rw [ofJson, toJson, expect_append, Option.bind_some,
    readNumber_number _ (by simp [nonceLead])]
  simp only [expect_append, Option.bind_some, readArray_array, if_true, UInt64.ofNat_toNat,
    map_ofNat_toNat]

theorem ascii_leads (x : Char) (h : x ∈ indexLead ∨ x ∈ nonceLead ∨ x ∈ ciphertextLead) :
    x.toNat < 128 := by
  have hall : (indexLead ++ nonceLead ++ ciphertextLead).all (fun y => y.toNat < 128) = true := by
    decide
  have hmem : x ∈ indexLead ++ nonceLead ++ ciphertextLead := by
    rw [List.mem_append, List.mem_append]
    exact or_assoc.mpr h
  exact of_decide_eq_true (List.all_eq_true.mp hall x hmem)

theorem ascii_chunkText {index : ℕ} {nonce ciphertext : Bytes} {x : Char}
    (h : x ∈ chunkText index nonce ciphertext) : x.toNat < 128 := by
  simp only [chunkText, List.mem_append] at h
  rcases h with h | h | h | h | h | h | h
  · exact ascii_leads x (.inl h)
  · exact ascii_number h
  · exact ascii_leads x (.inr (.inl h))
  · exact ascii_array h
  · exact ascii_leads x (.inr (.inr h))
  · exact ascii_array h
  · obtain rfl := List.mem_singleton.mp h; decide

theorem ascii_toJson {c : ChunkCiphertext} {x : Char} (h : x ∈ c.toJson) : x.toNat < 128 :=
  ascii_chunkText h

theorem toVec_ne_nil (c : ChunkCiphertext) : c.toVec ≠ [] := by
  simp [toVec, toJson, indexLead, toAscii]

/-- A byte takes at most three digits and a comma. -/
theorem length_chunkText_le {index : ℕ} (hindex : (number index).length ≤ 20)
    (nonce ciphertext : Bytes) :
    (chunkText index nonce ciphertext).length ≤ 4 * (nonce.length + ciphertext.length) + 60 := by
  have hbytes : ∀ b : Bytes, (array (b.map UInt8.toNat)).length ≤ 4 * b.length + 2 := by
    intro b
    have hle : (array (b.map UInt8.toNat)).length ≤ (3 + 1) * (b.map UInt8.toNat).length + 2 :=
      length_array_le (by decide) fun n hn => by
        obtain ⟨x, -, rfl⟩ := List.mem_map.mp hn
        exact lt_trans x.toNat_lt (by decide)
    rwa [List.length_map] at hle
  have hnonce := hbytes nonce
  have hciphertext := hbytes ciphertext
  simp only [chunkText, List.length_append, indexLead, nonceLead, ciphertextLead, List.length_cons,
    List.length_nil]
  omega

theorem length_toVec_le (c : ChunkCiphertext) :
    c.toVec.length ≤ 4 * (c.nonce.length + c.ciphertext.length) + 60 := by
  have hindex : (number c.index.toNat).length ≤ 20 :=
    length_number_le (by decide) (lt_trans c.index.toNat_lt (by decide))
  rw [toVec, toAscii, List.length_map, toJson_eq]
  exact length_chunkText_le hindex c.nonce c.ciphertext

theorem fromSlice_toVec (c : ChunkCiphertext) : fromSlice c.toVec = some c := by
  rw [fromSlice, toVec, ofAscii_toAscii fun _ h => ascii_toJson h, ofJson_toJson]

end FreeBox.Crypto.ChunkCiphertext
