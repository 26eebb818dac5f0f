import Mathlib.Data.List.Nodup
import Mathlib.Data.List.Perm.Basic
import Mathlib.Data.List.Range
import FreeBox.Lib.Ties

/-!
# Walking through the pages of a listing

A client asks for one page after another until it is told, or sees, that there are no more.
Each page is the answer to a query of its own.

Results:
* `walk_pages`: a walk ends, and gives the pages one after another.
* `flatMap_pages`: the pages of one list are the list.
* `pages_perm`, `pages_repeat`: when each query orders the rows in its own way, the pages are
  always the rows if no page ends inside a tie, and may repeat a row if one does.
-/

namespace FreeBox.Lib

variable {α β ι : Type*} {n : ℕ}

/-- The requests from number `k` on, with at most `fuel` requests. `request k i` is the answer
    to request `k` at the cursor `i`: a page, and the cursor of the next page if there is
    one. -/
def walk (request : ℕ → ι → List α × Option ι) : (fuel k : ℕ) → ι → Option (List α)
  | 0, _, _ => none
  | fuel + 1, k, i =>
    match request k i with
    | (page, none) => some page
    | (page, some next) => (walk request fuel (k + 1) next).map (page ++ ·)

/-- The elements of `S`, each exactly once, and no other. -/
def EachOnce (l : List α) (S : α → Prop) : Prop := l.Nodup ∧ ∀ a, a ∈ l ↔ S a

/-- Page `k` of a list, with pages of `n`. -/
def pageAt (n k : ℕ) (l : List α) : List α := (l.drop (k * n)).take n

theorem length_pageAt (n k : ℕ) (l : List α) :
    (pageAt n k l).length = min n (l.length - k * n) := by
  rw [pageAt, List.length_take, List.length_drop]

/-- There is a next page exactly when this one is full. -/
theorem walk_pages_from {request : ℕ → ι → List α × Option ι} {page : ℕ → List α}
    (cursor : ℕ → ι) {total : ℕ} (hn : 0 < n)
    (hrequest : ∀ k ≤ total / n, request k (cursor k) =
      (page k, if (page k).length = n then some (cursor (k + 1)) else none))
    (hpage : ∀ k, (page k).length = min n (total - k * n)) (m : ℕ) :
    ∀ fuel k, k + m = total / n → m < fuel →
      walk request fuel k (cursor k) = some ((List.range' k (m + 1)).flatMap page) := by
  induction m with
  | zero =>
    intro fuel k hk hfuel
    obtain ⟨fuel, rfl⟩ := Nat.exists_eq_succ_of_ne_zero (Nat.ne_zero_of_lt hfuel)
    have hmod := Nat.div_add_mod total n
    have hrest := Nat.mod_lt total hn
    have hshort : ¬ (page k).length = n := by
      rw [hpage, show k = total / n from hk, Nat.mul_comm]
      omega
    rw [walk, hrequest k (by omega), if_neg hshort]
    simp
  | succ m ih =>
    intro fuel k hk hfuel
    obtain ⟨fuel, rfl⟩ := Nat.exists_eq_succ_of_ne_zero (Nat.ne_zero_of_lt hfuel)
    have hfull : (page k).length = n := by
      have hle : (k + 1) * n ≤ total := (Nat.le_div_iff_mul_le hn).mp (by omega)
      rw [Nat.succ_mul] at hle
      rw [hpage]
      omega
    have hnext := ih fuel (k + 1) (by omega) (by omega)
    rw [walk, hrequest k (by omega), if_pos hfull]
    dsimp only
    rw [hnext, Option.map_some]
    rfl

theorem walk_pages {request : ℕ → ι → List α × Option ι} {page : ℕ → List α}
    (cursor : ℕ → ι) {total fuel : ℕ} (hn : 0 < n)
    (hrequest : ∀ k ≤ total / n, request k (cursor k) =
      (page k, if (page k).length = n then some (cursor (k + 1)) else none))
    (hpage : ∀ k, (page k).length = min n (total - k * n)) (hfuel : total / n < fuel) :
    walk request fuel 0 (cursor 0) = some ((List.range (total / n + 1)).flatMap page) := by
  rw [walk_pages_from cursor hn hrequest hpage (total / n) fuel 0 (Nat.zero_add _) hfuel,
    List.range_eq_range']

/-- A walk that ends with some fuel gives the same pages with more. -/
theorem walk_mono {request : ℕ → ι → List α × Option ι} {fuel fuel' : ℕ} (hle : fuel ≤ fuel') :
    ∀ {k i l}, walk request fuel k i = some l → walk request fuel' k i = some l := by
  induction fuel generalizing fuel' with
  | zero =>
    intro k i l h
    cases h
  | succ fuel ih =>
    intro k i l h
    obtain ⟨fuel', rfl⟩ := Nat.exists_eq_succ_of_ne_zero (Nat.ne_zero_of_lt hle)
    rw [walk] at h ⊢
    split
    · next page hrequest =>
      rw [hrequest] at h
      exact h
    · next page next hrequest =>
      rw [hrequest] at h
      obtain ⟨rest, hrest, rfl⟩ := Option.map_eq_some_iff.mp h
      rw [ih (Nat.le_of_succ_le_succ hle) hrest]
      rfl

theorem walk_right_unique {request : ℕ → ι → List α × Option ι} {fuel fuel' k : ℕ} {i : ι}
    {l l' : List α} (h : walk request fuel k i = some l) (h' : walk request fuel' k i = some l') :
    l = l' := by
  have hmax := walk_mono (le_max_left fuel fuel') h
  rw [walk_mono (le_max_right fuel fuel') h'] at hmax
  exact (Option.some.inj hmax).symm

/-! ## The pages of one list -/

theorem flatMap_pageAt (n m : ℕ) (l : List α) :
    ((List.range m).flatMap fun k => pageAt n k l) = l.take (m * n) := by
  induction m with
  | zero => rw [Nat.zero_mul]; rfl
  | succ m ih =>
    rw [List.range_succ, List.flatMap_append, ih, List.flatMap_singleton, pageAt, Nat.succ_mul,
      ← List.take_add]

theorem flatMap_pages (hn : 0 < n) (l : List α) :
    ((List.range (l.length / n + 1)).flatMap fun k => pageAt n k l) = l := by
  have hlt := Nat.lt_mul_div_succ l.length hn
  rw [Nat.mul_comm] at hlt
  rw [flatMap_pageAt, List.take_of_length_le (le_of_lt hlt)]

/-! ## Pages of several lists -/

variable [LinearOrder β] {key : α → β} {rows : List α}

/-- A page between two positions that no tie spans has the same rows in every order. -/
theorem Arrangement.pageAt_perm {k : ℕ} {l l' : List α}
    (hfirst : ¬ SplitsTie key rows (k * n)) (hlast : ¬ SplitsTie key rows ((k + 1) * n))
    (h : Arrangement key rows l) (h' : Arrangement key rows l') :
    (pageAt n k l).Perm (pageAt n k l') := by
  have hbefore := Arrangement.take_perm hfirst h h'
  have hafter := Arrangement.take_perm hlast h h'
  rw [Nat.succ_mul, List.take_add, List.take_add] at hafter
  exact (List.perm_append_left_iff _).mp ((hbefore.append_right _).symm.trans hafter)

theorem mem_pageAt {k i : ℕ} {l : List α} {a : α} (hlow : k * n ≤ i) (hhigh : i < (k + 1) * n)
    (ha : l[i]? = some a) : a ∈ pageAt n k l := by
  rw [Nat.succ_mul] at hhigh
  refine List.mem_of_getElem? (i := i - k * n) ?_
  rw [pageAt, List.getElem?_take_of_lt (by omega), List.getElem?_drop, Nat.add_sub_cancel' hlow]
  exact ha

/-- When the two rows around the end of a page have one key and change places before the next
    page, one of them is on both pages. -/
theorem pages_repeat (hn : 0 < n) {k : ℕ} (hsplit : SplitsTie key rows (k * n)) :
    ∃ L : ℕ → List α, (∀ j, Arrangement key rows (L j)) ∧
      ¬ ((List.range (rows.length / n + 1)).flatMap fun j => pageAt n j (L j)).Nodup := by
  obtain ⟨hpos, hlt⟩ := hsplit.lt_length
  obtain ⟨l, hl, -⟩ := exists_arrangement_last key rows fun _ => true
  obtain ⟨front, a, b, back, rfl, hlen, heq⟩ := (splitsTie_iff hl).mp hsplit
  have hk : 0 < k := Nat.pos_of_mul_pos_right hpos
  refine ⟨fun j => if j < k then front ++ a :: b :: back else front ++ b :: a :: back, ?_, ?_⟩
  · intro j
    dsimp only
    split_ifs
    · exact hl
    · exact hl.swap heq
  · intro hnodup
    have hlast : k ≤ rows.length / n := (Nat.le_div_iff_mul_le hn).mpr (le_of_lt hlt)
    have hdisjoint := (List.nodup_flatMap.mp hnodup).2
    have hpages : List.Disjoint _ _ := List.pairwise_iff_getElem.mp hdisjoint (k - 1) k
      (by rw [List.length_range]; omega) (by rw [List.length_range]; omega) (by omega)
    rw [List.getElem_range, List.getElem_range] at hpages
    dsimp only at hpages
    rw [if_pos (by omega), if_neg (lt_irrefl k)] at hpages
    have hprev : (k - 1) * n + n = k * n := by
      rw [← Nat.succ_mul, Nat.succ_eq_add_one, Nat.sub_add_cancel hk]
    refine hpages (a := a) (mem_pageAt (i := front.length) ?_ ?_ ?_)
      (mem_pageAt (i := front.length + 1) ?_ ?_ ?_)
    · omega
    · rw [Nat.succ_mul]
      omega
    · simp
    · omega
    · rw [Nat.succ_mul]
      omega
    · simp

/-- When no page ends inside a tie, the pages are the rows, however each query orders them. -/
theorem pages_perm (hn : 0 < n) (h : ∀ k, ¬ SplitsTie key rows (k * n)) {L : ℕ → List α}
    (hL : ∀ k, Arrangement key rows (L k)) :
    ((List.range (rows.length / n + 1)).flatMap fun k => pageAt n k (L k)).Perm rows := by
  have hpages : ((List.range (rows.length / n + 1)).flatMap fun k => pageAt n k (L k)).Perm
      ((List.range (rows.length / n + 1)).flatMap fun k => pageAt n k (L 0)) :=
    List.Perm.flatMap_left _ fun k _ => (hL k).pageAt_perm (h k) (h (k + 1)) (hL 0)
  refine hpages.trans ?_
  rw [← (hL 0).perm.length_eq, flatMap_pages hn]
  exact (hL 0).perm

end FreeBox.Lib
