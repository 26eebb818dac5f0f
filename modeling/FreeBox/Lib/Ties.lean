import Mathlib.Data.List.Sort
import Mathlib.Data.Prod.Lex

/-!
# Sorting with ties

`ORDER BY key DESC` fixes the order of rows with different keys only. Rows with the same key
may come in any order, and in another one each time the query runs.

Results:
* `splitsTie_iff`: a position is between two rows with the same key.
* `not_splitsTie_of_nodup`: rows with different keys have no ties.
* `Arrangement.take_perm`: before a position that is between two keys, every order has the
  same rows.
* `exists_mem_take_iff`: when the first rows contain one with a given property, in every order.
-/

namespace FreeBox.Lib

variable {α β : Type*} [LinearOrder β] {key : α → β} {rows l l' front back : List α} {a b : α}
  {m n : ℕ}

/-- `l` is `rows` in descending order of `key`. -/
structure Arrangement (key : α → β) (rows l : List α) : Prop where
  perm : l.Perm rows
  sorted : l.Pairwise fun a b => key b ≤ key a

/-- The position `m` is inside the rows with one key, of which some are before it and some
    after it. -/
def SplitsTie (key : α → β) (rows : List α) (m : ℕ) : Prop :=
  ∃ t, rows.countP (fun a => t < key a) < m ∧ m < rows.countP (fun a => t ≤ key a)

/-! ## What is before a row and what after it -/

theorem Arrangement.le_front (h : Arrangement key rows (front ++ a :: back)) :
    ∀ x ∈ front, key a ≤ key x := by
  intro x hx
  exact (List.pairwise_append.mp h.sorted).2.2 x hx a List.mem_cons_self

theorem Arrangement.back_le (h : Arrangement key rows (front ++ a :: back)) :
    ∀ x ∈ back, key x ≤ key a := by
  intro x hx
  exact (List.pairwise_cons.mp (List.pairwise_append.mp h.sorted).2.1).1 x hx

theorem Arrangement.countP_eq (h : Arrangement key rows l) (p : α → Bool) :
    rows.countP p = l.countP p :=
  (h.perm.countP_eq p).symm

/-- The keys come in one order only. -/
theorem Arrangement.map_key (h : Arrangement key rows l) (h' : Arrangement key rows l') :
    l.map key = l'.map key := by
  have hperm : (l.map key).Perm (l'.map key) := (h.perm.trans h'.perm.symm).map key
  refine hperm.eq_of_pairwise (fun x y _ _ hxy hyx => le_antisymm hyx hxy) ?_ ?_
  · exact List.pairwise_map.mpr h.sorted
  · exact List.pairwise_map.mpr h'.sorted

/-- Two rows around a position. -/
theorem exists_append_cons_cons (hpos : 0 < m) (hm : m < l.length) :
    ∃ front a b back, l = front ++ a :: b :: back ∧ front.length + 1 = m := by
  have hpred : m - 1 < l.length := by omega
  refine ⟨l.take (m - 1), l[m - 1], l[m], l.drop (m + 1), ?_, ?_⟩
  · have hb : l.drop m = l[m] :: l.drop (m + 1) := List.drop_eq_getElem_cons hm
    have ha : l.drop (m - 1) = l[m - 1] :: l.drop m := by
      rw [List.drop_eq_getElem_cons hpred, Nat.sub_add_cancel hpos]
    rw [← hb, ← ha, List.take_append_drop]
  · rw [List.length_take]
    omega

/-! ## Ties -/

theorem Arrangement.splitsTie (h : Arrangement key rows (front ++ a :: b :: back))
    (heq : key a = key b) : SplitsTie key rows (front.length + 1) := by
  refine ⟨key a, ?_, ?_⟩
  · have hback : back.countP (fun x => decide (key a < key x)) = 0 := by
      rw [List.countP_eq_zero]
      intro x hx hlt
      have hle : key x ≤ key a := h.back_le x (List.mem_cons_of_mem b hx)
      exact absurd (of_decide_eq_true hlt) (not_lt.mpr hle)
    rw [h.countP_eq, List.countP_append, List.countP_cons, List.countP_cons, hback, ← heq]
    simp only [lt_irrefl, decide_false, Bool.false_eq_true, if_false]
    exact Nat.lt_succ_of_le List.countP_le_length
  · have hfront : front.countP (fun x => decide (key a ≤ key x)) = front.length := by
      rw [List.countP_eq_length]
      intro x hx
      exact decide_eq_true (h.le_front x hx)
    rw [h.countP_eq, List.countP_append, List.countP_cons, List.countP_cons, hfront, ← heq]
    simp only [le_refl, decide_true, if_true]
    omega

theorem SplitsTie.lt_length (h : SplitsTie key rows m) : 0 < m ∧ m < rows.length := by
  obtain ⟨t, hlow, hhigh⟩ := h
  exact ⟨Nat.zero_lt_of_lt hlow, lt_of_lt_of_le hhigh List.countP_le_length⟩

theorem countP_key_ge (rows : List α) (t : β) :
    rows.countP (fun a => t ≤ key a) =
      rows.countP (fun a => t < key a) + (rows.map key).count t := by
  induction rows with
  | nil => rfl
  | cons a rows ih =>
    rw [List.countP_cons, List.countP_cons, List.map_cons, List.count_cons, ih]
    rcases lt_trichotomy t (key a) with h | h | h
    · simp [h, h.le, h.ne']
      omega
    · simp [h]
      omega
    · simp [h.not_ge, h.not_gt, h.ne]

/-- Rows with different keys have no ties. -/
theorem not_splitsTie_of_nodup (h : (rows.map key).Nodup) : ¬ SplitsTie key rows m := by
  rintro ⟨t, hlow, hhigh⟩
  have hcount := List.nodup_iff_count_le_one.mp h t
  rw [countP_key_ge] at hhigh
  omega

theorem splitsTie_iff (h : Arrangement key rows l) :
    SplitsTie key rows m ↔
      ∃ front a b back, l = front ++ a :: b :: back ∧ front.length + 1 = m ∧ key a = key b := by
  constructor
  · intro hsplit
    obtain ⟨hpos, hlt⟩ := hsplit.lt_length
    obtain ⟨t, hlow, hhigh⟩ := hsplit
    rw [← h.perm.length_eq] at hlt
    obtain ⟨front, a, b, back, rfl, hlen⟩ := exists_append_cons_cons hpos hlt
    refine ⟨front, a, b, back, rfl, hlen, le_antisymm ?_ (h.back_le b List.mem_cons_self)⟩
    have ha : key a ≤ t := by
      by_contra hlt
      have hfront : front.countP (fun x => decide (t < key x)) = front.length := by
        rw [List.countP_eq_length]
        intro x hx
        exact decide_eq_true ((not_le.mp hlt).trans_le (h.le_front x hx))
      rw [h.countP_eq, List.countP_append, hfront, List.countP_cons,
        if_pos (decide_eq_true (not_le.mp hlt))] at hlow
      omega
    have hb : t ≤ key b := by
      by_contra hlt
      have hrest : Arrangement key rows ((front ++ [a]) ++ b :: back) := by
        rwa [List.append_assoc]
      have hback : back.countP (fun x => decide (t ≤ key x)) = 0 := by
        rw [List.countP_eq_zero]
        intro x hx hle
        exact hlt ((of_decide_eq_true hle).trans (hrest.back_le x hx))
      have hfront := List.countP_le_length (p := fun x => decide (t ≤ key x)) (l := front ++ [a])
      rw [hrest.countP_eq, List.countP_append, List.countP_cons, hback,
        if_neg (by simpa using hlt)] at hhigh
      rw [List.length_append, List.length_singleton] at hfront
      omega
    exact ha.trans hb
  · intro htie
    obtain ⟨front, a, b, back, rfl, rfl, heq⟩ := htie
    exact h.splitsTie heq

theorem Arrangement.swap (h : Arrangement key rows (front ++ a :: b :: back))
    (heq : key a = key b) : Arrangement key rows (front ++ b :: a :: back) where
  perm := ((List.Perm.swap a b back).append_left front).trans h.perm
  sorted := by
    have hsorted := h.sorted
    simp only [List.pairwise_append, List.pairwise_cons, List.mem_cons,
      forall_eq_or_imp] at hsorted ⊢
    obtain ⟨hfront, ⟨⟨hba, ha⟩, hb, hback⟩, hcross⟩ := hsorted
    refine ⟨hfront, ⟨⟨heq.le, ?_⟩, ?_, hback⟩, ?_⟩
    · intro x hx
      exact hb x hx
    · intro x hx
      exact ha x hx
    · intro x hx
      obtain ⟨hxa, hxb, hrest⟩ := hcross x hx
      exact ⟨hxb, hxa, hrest⟩

/-- The first rows are those down to the key of the last of them. -/
theorem Arrangement.take_eq_filter (h : Arrangement key rows (front ++ a :: b :: back))
    (hlt : key b < key a) :
    front ++ [a] = (front ++ a :: b :: back).filter fun x => key a ≤ key x := by
  have hrest : Arrangement key rows ((front ++ [a]) ++ b :: back) := by
    rw [List.append_assoc]
    exact h
  have hfront : (front ++ [a]).filter (fun x => key a ≤ key x) = front ++ [a] := by
    rw [List.filter_eq_self]
    intro x hx
    rcases List.mem_append.mp hx with hx | hx
    · exact decide_eq_true (h.le_front x hx)
    · rw [List.mem_singleton.mp hx]
      exact decide_eq_true le_rfl
  have hback : (b :: back).filter (fun x => key a ≤ key x) = [] := by
    rw [List.filter_eq_nil_iff]
    intro x hx hle
    have hxb : key x ≤ key b := by
      rcases List.mem_cons.mp hx with rfl | hx
      · exact le_rfl
      · exact hrest.back_le x hx
    exact absurd ((of_decide_eq_true hle).trans hxb) (not_le.mpr hlt)
  rw [show front ++ a :: b :: back = (front ++ [a]) ++ b :: back by rw [List.append_assoc]; rfl,
    List.filter_append, hfront, hback, List.append_nil]

theorem Arrangement.take_perm (hsplit : ¬ SplitsTie key rows m) (h : Arrangement key rows l)
    (h' : Arrangement key rows l') : (l.take m).Perm (l'.take m) := by
  have hperm : l.Perm l' := h.perm.trans h'.perm.symm
  by_cases hpos : 0 < m
  · by_cases hm : m < l.length
    · obtain ⟨front, a, b, back, rfl, hlen⟩ := exists_append_cons_cons hpos hm
      rw [hperm.length_eq] at hm
      obtain ⟨front', a', b', back', rfl, hlen'⟩ := exists_append_cons_cons hpos hm
      have hlt : key b < key a := by
        refine lt_of_le_of_ne (h.back_le b List.mem_cons_self) fun heq => hsplit ?_
        rw [← hlen]
        exact h.splitsTie heq.symm
      have hlt' : key b' < key a' := by
        refine lt_of_le_of_ne (h'.back_le b' List.mem_cons_self) fun heq => hsplit ?_
        rw [← hlen']
        exact h'.splitsTie heq.symm
      have hkey : key a = key a' := by
        have hmap := h.map_key h'
        rw [List.map_append, List.map_append] at hmap
        have hrest := (List.append_inj hmap (by rw [List.length_map, List.length_map]; omega)).2
        exact (List.cons.inj hrest).1
      have htake : ∀ (f : List α) (x y : α) (g : List α), f.length + 1 = m →
          (f ++ x :: y :: g).take m = f ++ [x] := by
        intro f x y g hf
        rw [← hf, List.take_length_add_append]
        rfl
      rw [htake _ _ _ _ hlen, htake _ _ _ _ hlen', h.take_eq_filter hlt, h'.take_eq_filter hlt',
        hkey]
      exact hperm.filter _
    · rw [List.take_of_length_le (not_lt.mp hm),
        List.take_of_length_le (by rw [← hperm.length_eq]; exact not_lt.mp hm)]
      exact hperm
  · rw [Nat.eq_zero_of_not_pos hpos, List.take_zero, List.take_zero]

/-! ## The first rows -/

variable {p : α → Bool}

/-- The order that puts the rows with `p` behind the others of their key. -/
theorem exists_arrangement_last (key : α → β) (rows : List α) (p : α → Bool) :
    ∃ l, Arrangement key rows l ∧
      l.Pairwise fun a b => key b ≤ key a ∧ (key a = key b → p a = true → p b = true) := by
  let rank : α → βᵒᵈ ×ₗ Bool := fun a => toLex (OrderDual.toDual (key a), p a)
  have htotal : Std.Total fun a b : α => rank a ≤ rank b := ⟨fun a b => le_total (rank a) (rank b)⟩
  have htrans : IsTrans α fun a b => rank a ≤ rank b := ⟨fun a b c => le_trans⟩
  have hsorted : (rows.insertionSort fun a b => rank a ≤ rank b).Pairwise
      fun a b => key b ≤ key a ∧ (key a = key b → p a = true → p b = true) := by
    refine (List.pairwise_insertionSort _ rows).imp fun {a b} hle => ?_
    rcases Prod.Lex.toLex_le_toLex.mp hle with hlt | ⟨heq, hp⟩
    · exact ⟨le_of_lt hlt, fun hkey => absurd hkey (ne_of_gt hlt)⟩
    · refine ⟨le_of_eq (OrderDual.toDual_inj.mp heq).symm, fun _ ha => ?_⟩
      exact Bool.eq_true_of_true_le (ha ▸ hp)
  exact ⟨_, ⟨List.perm_insertionSort _ rows, hsorted.imp And.left⟩, hsorted⟩

/-- Among the first `n` rows is always one with `p` exactly when for one such row there are
    fewer than `n` others that may come before it. -/
theorem exists_mem_take_iff (key : α → β) (rows : List α) (p : α → Bool) (n : ℕ) :
    (∀ l, Arrangement key rows l → ∃ a ∈ l.take n, p a = true) ↔
      ∃ a ∈ rows, p a = true ∧ rows.countP (fun b => ¬ p b = true ∧ key a ≤ key b) < n := by
  constructor
  · intro h
    obtain ⟨l, hl, hlast⟩ := exists_arrangement_last key rows p
    obtain ⟨a, ha, hp⟩ := h l hl
    obtain ⟨front, back, hsplit⟩ := List.append_of_mem ha
    have hfront : front.length < n := by
      have hlen := congrArg List.length hsplit
      rw [List.length_take, List.length_append, List.length_cons] at hlen
      omega
    have hl' : l = front ++ a :: (back ++ l.drop n) := by
      conv_lhs => rw [← List.take_append_drop n l, hsplit]
      rw [List.append_assoc, List.cons_append]
    refine ⟨a, hl.perm.mem_iff.mp (List.mem_of_mem_take ha), hp, ?_⟩
    rw [hl'] at hlast
    have hback : (back ++ l.drop n).countP (fun b => ¬ p b = true ∧ key a ≤ key b) = 0 := by
      rw [List.countP_eq_zero]
      intro b hb hcount
      obtain ⟨hnot, hle⟩ := of_decide_eq_true hcount
      obtain ⟨hba, hpb⟩ :=
        (List.pairwise_cons.mp (List.pairwise_append.mp hlast).2.1).1 b hb
      exact hnot (hpb (le_antisymm hle hba) hp)
    rw [hl.countP_eq, hl', List.countP_append, List.countP_cons, hback, if_neg (by simp [hp])]
    exact lt_of_le_of_lt List.countP_le_length hfront
  · intro h l hl
    obtain ⟨a, ha, hp, hcount⟩ := h
    by_contra hcontra
    have hnone : ∀ b ∈ l.take n, ¬ p b = true := fun b hb hpb => hcontra ⟨b, hb, hpb⟩
    have hmem : a ∈ l := hl.perm.mem_iff.mpr ha
    have hdrop : a ∈ l.drop n := by
      rw [← List.take_append_drop n l, List.mem_append] at hmem
      exact hmem.resolve_left fun htake => hnone a htake hp
    have hlong : n ≤ l.length := by
      have := List.length_pos_of_mem hdrop
      rw [List.length_drop] at this
      omega
    have htake : (l.take n).countP (fun b => ¬ p b = true ∧ key a ≤ key b) = n := by
      rw [List.countP_eq_length.mpr, List.length_take, Nat.min_eq_left hlong]
      intro b hb
      have hsorted := hl.sorted
      rw [← List.take_append_drop n l, List.pairwise_append] at hsorted
      exact decide_eq_true ⟨hnone b hb, hsorted.2.2 b hb a hdrop⟩
    have hle := (List.take_sublist n l).countP_le (p := fun b => ¬ p b = true ∧ key a ≤ key b)
    rw [htake, ← hl.countP_eq] at hle
    omega

end FreeBox.Lib
