import Mathlib.Data.List.Basic
import Mathlib.Data.List.Induction

/-!
# The last segment of a path

A text that is cut at a separator, of which the last piece that is not empty is taken, as
programs do with paths and URLs.

Results:
* `lastPart_eq_some_iff`: the last part is what stands before the separators at the end, back
  to the separator before it.
* `not_mem_of_mem_splitOn`: no piece has a separator.
-/

namespace FreeBox.Lib

variable {α : Type} [DecidableEq α] {sep : α} {part l : List α}

/-- The last piece that is not empty. -/
def lastPart (sep : α) (l : List α) : Option (List α) :=
  ((l.splitOn sep).filter (· ≠ [])).getLast?

/-- `l` ends in `part`, which begins after a separator and has only separators behind it. -/
def EndsIn (sep : α) (part l : List α) : Prop :=
  ∃ front k, l = front ++ part ++ List.replicate k sep ∧ (front = [] ∨ front.getLast? = some sep)

theorem lastPart_append_sep (sep : α) (l : List α) :
    lastPart sep (l ++ [sep]) = lastPart sep l := by
  unfold lastPart
  rw [List.splitOn_append_cons_self, List.splitOn_nil, List.filter_append]
  simp

theorem lastPart_append_replicate (sep : α) (l : List α) (k : ℕ) :
    lastPart sep (l ++ List.replicate k sep) = lastPart sep l := by
  induction k with
  | zero => rw [List.replicate_zero, List.append_nil]
  | succ k ih => rw [List.replicate_succ', ← List.append_assoc, lastPart_append_sep, ih]

theorem lastPart_replicate (sep : α) (k : ℕ) : lastPart sep (List.replicate k sep) = none := by
  have h := lastPart_append_replicate sep [] k
  rw [List.nil_append] at h
  rw [h]
  rfl

theorem lastPart_append (front : List α) (hne : part ≠ []) (hpart : sep ∉ part)
    (hfront : front = [] ∨ front.getLast? = some sep) :
    lastPart sep (front ++ part) = some part := by
  have hsplit : part.splitOn sep = [part] := List.splitOn_eq_singleton hpart
  unfold lastPart
  rcases hfront with hnil | hlast
  · rw [hnil, List.nil_append, hsplit]
    simp [hne]
  · obtain ⟨ys, rfl⟩ := List.getLast?_eq_some_iff.mp hlast
    rw [List.append_assoc, List.singleton_append, List.splitOn_append_cons_self, hsplit,
      List.filter_append]
    simp [hne]

/-- Every list is separators only, or it ends in a part. -/
theorem replicate_or_endsIn (sep : α) (l : List α) :
    (∃ k, l = List.replicate k sep) ∨ ∃ part, part ≠ [] ∧ sep ∉ part ∧ EndsIn sep part l := by
  induction l using List.reverseRecOn with
  | nil => exact .inl ⟨0, rfl⟩
  | append_singleton l a ih =>
    by_cases ha : a = sep
    · subst ha
      rcases ih with ⟨k, rfl⟩ | ⟨part, hne, hpart, front, k, rfl, hfront⟩
      · exact .inl ⟨k + 1, List.replicate_succ'.symm⟩
      · refine .inr ⟨part, hne, hpart, front, k + 1, ?_, hfront⟩
        rw [List.replicate_succ', List.append_assoc (front ++ part)]
    · right
      have hsingle : sep ∉ [a] := by simp [Ne.symm ha]
      rcases ih with ⟨k, rfl⟩ | ⟨part, hne, hpart, front, k, rfl, hfront⟩
      · refine ⟨[a], List.cons_ne_nil _ _, hsingle, List.replicate k sep, 0, ?_, ?_⟩
        · rw [List.replicate_zero, List.append_nil]
        · cases k with
          | zero => exact .inl rfl
          | succ k => right; simp [List.getLast?_replicate]
      · cases k with
        | zero =>
          refine ⟨part ++ [a], by simp, by simp [hpart, Ne.symm ha], front, 0, ?_, hfront⟩
          simp
        | succ k =>
          refine ⟨[a], List.cons_ne_nil _ _, hsingle, front ++ part ++ List.replicate (k + 1) sep,
            0, by simp, .inr ?_⟩
          rw [List.getLast?_append_of_ne_nil _ (by simp)]
          simp [List.getLast?_replicate]

theorem lastPart_eq_some_iff :
    lastPart sep l = some part ↔ part ≠ [] ∧ sep ∉ part ∧ EndsIn sep part l := by
  have hends : ∀ part, part ≠ [] → sep ∉ part → EndsIn sep part l → lastPart sep l = some part := by
    intro part hne hpart h
    obtain ⟨front, k, rfl, hfront⟩ := h
    rw [lastPart_append_replicate, lastPart_append front hne hpart hfront]
  constructor
  · intro h
    rcases replicate_or_endsIn sep l with ⟨k, rfl⟩ | ⟨p, hne, hpart, hp⟩
    · rw [lastPart_replicate] at h
      cases h
    · obtain rfl : p = part := Option.some.inj ((hends p hne hpart hp).symm.trans h)
      exact ⟨hne, hpart, hp⟩
  · intro h
    exact hends part h.1 h.2.1 h.2.2

theorem not_mem_of_mem_splitOn (h : part ∈ l.splitOn sep) : sep ∉ part := by
  induction l generalizing part with
  | nil =>
    rw [List.splitOn_nil, List.mem_singleton] at h
    rw [h]
    exact List.not_mem_nil
  | cons a l ih =>
    rw [List.splitOn_cons_eq_if_modifyHead] at h
    split_ifs at h with ha
    · rcases List.mem_cons.mp h with rfl | h
      · exact List.not_mem_nil
      · exact ih h
    · obtain ⟨p, ps, hps⟩ := List.exists_cons_of_ne_nil (List.splitOn_ne_nil sep l)
      rw [hps] at h ih
      rcases List.mem_cons.mp h with rfl | h
      · have hp := ih List.mem_cons_self
        have hne : ¬ sep = a := fun heq => ha (by rw [heq]; exact beq_self_eq_true a)
        simp [hne, hp]
      · exact ih (List.mem_cons_of_mem p h)

end FreeBox.Lib
