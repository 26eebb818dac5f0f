import FreeBox.Lib.Text

/-!
# Trimming

`str::trim_start_matches`, which drops every copy of a text at the beginning, and what it and
`str::trim_end_matches` leave.

Results:
* `trimStartMatches_eq_iff`, `trimEndMatches_eq_iff`: the result is what is left when nothing
  more can be dropped.
-/

namespace FreeBox.Lib

variable {α : Type} [DecidableEq α] {lead s t : List α} {c : α} {fuel k : ℕ}

/-- Without at most `fuel` copies of `lead` at the beginning. -/
def dropLeads (lead : List α) : (fuel : ℕ) → List α → List α
  | 0, s => s
  | fuel + 1, s => if lead <+: s then dropLeads lead fuel (s.drop lead.length) else s

/-- `str::trim_start_matches` of a text or a character; the text is not empty. -/
def trimStartMatches (lead s : String) : String :=
  String.ofList (dropLeads lead.toList s.toList.length s.toList)

/-! ## Copies at the beginning -/

/-- `k` copies of a list. -/
def copies (k : ℕ) (lead : List α) : List α := (List.replicate k lead).flatten

omit [DecidableEq α] in
theorem copies_zero_append (lead s : List α) : copies 0 lead ++ s = s := rfl

omit [DecidableEq α] in
theorem copies_succ (k : ℕ) (lead : List α) : copies (k + 1) lead = lead ++ copies k lead := by
  rw [copies, List.replicate_succ, List.flatten_cons]
  rfl

omit [DecidableEq α] in
theorem copies_succ' (k : ℕ) (lead : List α) : copies (k + 1) lead = copies k lead ++ lead := by
  rw [copies, List.replicate_succ', List.flatten_append, List.flatten_singleton]
  rfl

theorem dropLeads_copies (ht : ¬ lead <+: t) (hfuel : k ≤ fuel) :
    dropLeads lead fuel (copies k lead ++ t) = t := by
  induction k generalizing fuel with
  | zero =>
    cases fuel with
    | zero => rfl
    | succ fuel => exact if_neg ht
  | succ k ih =>
    obtain ⟨fuel, rfl⟩ := Nat.exists_eq_succ_of_ne_zero (Nat.ne_zero_of_lt hfuel)
    rw [copies_succ, List.append_assoc, dropLeads, if_pos (List.prefix_append _ _), List.drop_left]
    exact ih (Nat.le_of_succ_le_succ hfuel)

theorem exists_dropLeads (hlead : lead ≠ []) (hfuel : s.length ≤ fuel) :
    ∃ k, s = copies k lead ++ dropLeads lead fuel s ∧ ¬ lead <+: dropLeads lead fuel s := by
  induction fuel generalizing s with
  | zero =>
    have hs : s = [] := List.length_eq_zero_iff.mp (Nat.le_zero.mp hfuel)
    refine ⟨0, rfl, ?_⟩
    rw [dropLeads, hs, List.prefix_nil]
    exact hlead
  | succ fuel ih =>
    by_cases h : lead <+: s
    · obtain ⟨t, rfl⟩ := h
      have hpos : 0 < lead.length := List.length_pos_iff.mpr hlead
      rw [List.length_append] at hfuel
      obtain ⟨k, hk, hnot⟩ := ih (s := t) (by omega)
      rw [dropLeads, if_pos (List.prefix_append _ _), List.drop_left]
      refine ⟨k + 1, ?_, hnot⟩
      rw [copies_succ, List.append_assoc, ← hk]
    · rw [dropLeads, if_neg h]
      exact ⟨0, rfl, h⟩

omit [DecidableEq α] in
theorem le_length_copies (hlead : lead ≠ []) (k : ℕ) : k ≤ (copies k lead).length := by
  have hpos : 0 < lead.length := List.length_pos_iff.mpr hlead
  induction k with
  | zero => exact Nat.zero_le _
  | succ k ih =>
    rw [copies_succ, List.length_append]
    omega

theorem trimStartMatches_eq_iff {lead s t : String} (hlead : lead ≠ "") :
    trimStartMatches lead s = t ↔
      ∃ k, s.toList = copies k lead.toList ++ t.toList ∧ ¬ lead.toList <+: t.toList := by
  have hlist : lead.toList ≠ [] := fun h => hlead (String.toList_eq_nil_iff.mp h)
  unfold trimStartMatches
  constructor
  · intro h
    rw [← h, String.toList_ofList]
    exact exists_dropLeads hlist le_rfl
  · intro h
    obtain ⟨k, hs, ht⟩ := h
    have hk : k ≤ s.toList.length := by
      rw [hs, List.length_append]
      exact (le_length_copies hlist k).trans (Nat.le_add_right _ _)
    have hdrop := dropLeads_copies ht hk
    rw [← hs] at hdrop
    rw [hdrop, String.ofList_toList]

/-! ## A character at the end -/

theorem rdropWhile_append_replicate (ht : t.getLast? ≠ some c) (k : ℕ) :
    (t ++ List.replicate k c).rdropWhile (· = c) = t := by
  induction k with
  | zero =>
    rw [List.replicate_zero, List.append_nil, List.rdropWhile_eq_self_iff]
    intro hne hlast
    apply ht
    rw [List.getLast?_eq_getLast_of_ne_nil hne, of_decide_eq_true hlast]
  | succ k ih =>
    rw [List.replicate_succ', ← List.append_assoc, List.rdropWhile_concat_pos _ _ _ (by simp), ih]

theorem exists_rdropWhile (c : α) (s : List α) :
    ∃ k, s = s.rdropWhile (· = c) ++ List.replicate k c ∧
      (s.rdropWhile (· = c)).getLast? ≠ some c := by
  have hall : s.rtakeWhile (· = c) = List.replicate (s.rtakeWhile (· = c)).length c := by
    rw [List.eq_replicate_iff]
    refine ⟨rfl, fun a ha => ?_⟩
    have hkeep := List.mem_rtakeWhile_imp ha
    exact of_decide_eq_true hkeep
  refine ⟨(s.rtakeWhile (· = c)).length, ?_, ?_⟩
  · rw [← hall]
    exact List.rdropWhile_append_rtakeWhile.symm
  · intro hlast
    have hne : s.rdropWhile (· = c) ≠ [] := by
      intro hnil
      rw [hnil] at hlast
      cases hlast
    rw [List.getLast?_eq_getLast_of_ne_nil hne] at hlast
    exact List.rdropWhile_last_not _ _ hne (decide_eq_true (Option.some.inj hlast))

theorem trimEndMatches_eq_iff {c : Char} {s t : String} :
    trimEndMatches c s = t ↔
      ∃ k, s.toList = t.toList ++ List.replicate k c ∧ t.toList.getLast? ≠ some c := by
  unfold trimEndMatches
  constructor
  · intro h
    rw [← h, String.toList_ofList]
    exact exists_rdropWhile c s.toList
  · intro h
    obtain ⟨k, hs, ht⟩ := h
    rw [hs, rdropWhile_append_replicate ht, String.ofList_toList]

end FreeBox.Lib
