import Mathlib.Data.List.Basic
import Mathlib.Tactic.NormNum
import Mathlib.Tactic.Ring

/-!
# Byte strings

Byte strings as lists, integers in big-endian order (`to_be_bytes`) and the
splitting of a slice into pieces of one size (`slice::chunks`).

Results:
* `beBytes_inj`: `w` big-endian bytes determine a number below `256^w`.
* `beBytes_add`: the high bytes, then the low ones.
* `flatten_chunks`: the pieces put together again are the slice.
* `chunks_getElem?`, `lt_length_chunks`: where each piece begins, and how many there are.
* `ne_nil_of_mem_chunks`, `length_of_mem_chunks`: no piece is empty, and none is too long.
* `length_flatten_le`: pieces put together are no longer than at full length.
-/

namespace FreeBox.Lib

abbrev Bytes := List UInt8

/-! ## Big-endian integers -/

/-- `n` modulo `256^w` in `w` bytes, most significant byte first. -/
def beBytes : (w : ℕ) → ℕ → Bytes
  | 0, _ => []
  | w + 1, n => beBytes w (n / 256) ++ [UInt8.ofNat n]

@[simp] theorem length_beBytes (w n : ℕ) : (beBytes w n).length = w := by
  induction w generalizing n with
  | zero => rfl
  | succ w ih => rw [beBytes, List.length_append, ih]; rfl

theorem beBytes_inj {w a b : ℕ} (ha : a < 256 ^ w) (hb : b < 256 ^ w)
    (h : beBytes w a = beBytes w b) : a = b := by
  induction w generalizing a b with
  | zero => omega
  | succ w ih =>
    rw [beBytes, beBytes] at h
    obtain ⟨hhigh, hlow⟩ := List.append_inj' h rfl
    have e1 : a / 256 = b / 256 :=
      ih (by rw [pow_succ] at ha; omega) (by rw [pow_succ] at hb; omega) hhigh
    have e2 : a % 256 = b % 256 := by
      have := congrArg UInt8.toNat (List.singleton_inj.mp hlow)
      simpa using this
    omega

theorem beBytes_add (v w n : ℕ) : beBytes (v + w) n = beBytes v (n / 256 ^ w) ++ beBytes w n := by
  induction w generalizing n with
  | zero => rw [pow_zero, Nat.div_one]; exact (List.append_nil _).symm
  | succ w ih =>
    rw [← Nat.add_assoc, beBytes, beBytes, ih, Nat.div_div_eq_div_mul, ← pow_succ',
      List.append_assoc]

theorem beBytes_mod (w n : ℕ) : beBytes w (n % 256 ^ w) = beBytes w n := by
  induction w generalizing n with
  | zero => rfl
  | succ w ih =>
    have hlow : UInt8.ofNat (n % 256 ^ (w + 1)) = UInt8.ofNat n := by
      apply UInt8.toNat_inj.mp
      rw [UInt8.toNat_ofNat', UInt8.toNat_ofNat']
      exact Nat.mod_mod_of_dvd n (dvd_pow_self 256 (Nat.succ_ne_zero w))
    rw [beBytes, beBytes, hlow, pow_succ', Nat.mod_mul_right_div_self, ih]

/-! ## Pieces of one size -/

variable {α : Type*}

/-- `chunks` with `fuel` pieces at most. -/
def chunksAux (n : ℕ) : (fuel : ℕ) → List α → List (List α)
  | 0, _ => []
  | fuel + 1, l => if l = [] then [] else l.take n :: chunksAux n fuel (l.drop n)

/-- `slice::chunks`: pieces of length `n`, the last one possibly shorter. -/
def chunks (n : ℕ) (l : List α) : List (List α) := chunksAux n l.length l

theorem flatten_chunksAux {n : ℕ} (hn : 0 < n) {fuel : ℕ} {l : List α} (hl : l.length ≤ fuel) :
    (chunksAux n fuel l).flatten = l := by
  induction fuel generalizing l with
  | zero => rw [List.length_eq_zero_iff.mp (Nat.le_zero.mp hl)]; rfl
  | succ fuel ih =>
    rw [chunksAux]
    split_ifs with h
    · rw [h]; rfl
    · have hpos : 0 < l.length := List.length_pos_iff.mpr h
      rw [List.flatten_cons, ih (by rw [List.length_drop]; omega), List.take_append_drop]

theorem flatten_chunks {n : ℕ} (hn : 0 < n) (l : List α) : (chunks n l).flatten = l :=
  flatten_chunksAux hn le_rfl

theorem ne_nil_of_mem_chunksAux {n : ℕ} (hn : 0 < n) {fuel : ℕ} {l c : List α}
    (h : c ∈ chunksAux n fuel l) : c ≠ [] := by
  induction fuel generalizing l with
  | zero => cases h
  | succ fuel ih =>
    rw [chunksAux] at h
    split_ifs at h with hl
    · cases h
    · rcases List.mem_cons.mp h with rfl | h
      · rw [Ne, List.take_eq_nil_iff]
        rintro (h | h)
        · omega
        · exact hl h
      · exact ih h

theorem ne_nil_of_mem_chunks {n : ℕ} (hn : 0 < n) {l c : List α} (h : c ∈ chunks n l) : c ≠ [] :=
  ne_nil_of_mem_chunksAux hn h

theorem length_chunksAux_le {n fuel : ℕ} {l : List α} : (chunksAux n fuel l).length ≤ fuel := by
  induction fuel generalizing l with
  | zero => simp [chunksAux]
  | succ fuel ih =>
    rw [chunksAux]
    split_ifs
    · simp
    · rw [List.length_cons]; exact Nat.succ_le_succ ih

theorem length_chunks_le (n : ℕ) (l : List α) : (chunks n l).length ≤ l.length :=
  length_chunksAux_le

theorem length_of_mem_chunksAux {n fuel : ℕ} {l c : List α} (h : c ∈ chunksAux n fuel l) :
    c.length ≤ n := by
  induction fuel generalizing l with
  | zero => cases h
  | succ fuel ih =>
    rw [chunksAux] at h
    split_ifs at h
    · cases h
    · rcases List.mem_cons.mp h with rfl | h
      · exact List.length_take_le n l
      · exact ih h

theorem length_of_mem_chunks {n : ℕ} {l c : List α} (h : c ∈ chunks n l) : c.length ≤ n :=
  length_of_mem_chunksAux h

theorem chunksAux_getElem? {n : ℕ} (hn : 0 < n) {fuel : ℕ} {l : List α} (hl : l.length ≤ fuel)
    (i : ℕ) : (chunksAux n fuel l)[i]? =
      if i * n < l.length then some ((l.drop (i * n)).take n) else none := by
  induction fuel generalizing l i with
  | zero =>
    obtain rfl := List.length_eq_zero_iff.mp (Nat.le_zero.mp hl)
    rfl
  | succ fuel ih =>
    rw [chunksAux]
    split_ifs with hnil hlt hlt
    · rw [hnil] at hlt
      exact absurd hlt (Nat.not_lt_zero _)
    · rfl
    · cases i with
      | zero => rw [Nat.zero_mul]; rfl
      | succ i =>
        rw [Nat.succ_mul] at hlt ⊢
        rw [List.getElem?_cons_succ, ih (by rw [List.length_drop]; omega), List.length_drop,
          if_pos (by omega), List.drop_drop, Nat.add_comm n]
    · cases i with
      | zero => exact absurd (List.length_pos_iff.mpr hnil) (by simpa using hlt)
      | succ i =>
        rw [Nat.succ_mul] at hlt
        rw [List.getElem?_cons_succ, ih (by rw [List.length_drop]; omega), List.length_drop,
          if_neg (by omega)]

theorem chunks_getElem? {n : ℕ} (hn : 0 < n) (l : List α) (i : ℕ) :
    (chunks n l)[i]? = if i * n < l.length then some ((l.drop (i * n)).take n) else none :=
  chunksAux_getElem? hn le_rfl i

theorem lt_length_chunks {n : ℕ} (hn : 0 < n) {l : List α} {i : ℕ} :
    i < (chunks n l).length ↔ i * n < l.length := by
  rw [← not_iff_not, not_lt, ← List.getElem?_eq_none_iff, chunks_getElem? hn]
  split_ifs with h <;> simp [h]

theorem length_flatten_le {n : ℕ} {ls : List (List α)} (h : ∀ c ∈ ls, c.length ≤ n) :
    ls.flatten.length ≤ n * ls.length := by
  induction ls with
  | nil => simp
  | cons c ls ih =>
    have hc := h c List.mem_cons_self
    have hrest := ih fun c' hc' => h c' (List.mem_cons_of_mem c hc')
    rw [List.flatten_cons, List.length_append, List.length_cons, Nat.mul_succ]
    omega

end FreeBox.Lib
