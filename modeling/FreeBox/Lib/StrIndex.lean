import Mathlib.Data.List.Basic
import Mathlib.Data.List.Infix

/-!
# Texts by byte offsets

`str::find` and slices of a `str`. Offsets count bytes, and a slice whose ends are not
both in the text, in order and at the boundary of a character panics.

Results:
* `sliceFrom_append`, `slice_append`: slices at the ends of parts of a text.
* `exists_of_find`: where a pattern was found.
* `find_append`, `find_flatten`: parts in which a pattern cannot begin are passed over.
* `find_free`: the first occurrence after a text that is free of the pattern.
-/

namespace FreeBox.Lib.StrIndex

/-- What `str::index` panics with. -/
inductive Panic
  | slice
  deriving DecidableEq

/-- `str::len`. -/
def utf8Len : List Char → ℕ
  | [] => 0
  | c :: s => c.utf8Size + utf8Len s

/-- The text before a byte offset and the text from there on. -/
def splitAt : (s : List Char) → (offset : ℕ) → Except Panic (List Char × List Char)
  | s, 0 => .ok ([], s)
  | [], _ + 1 => .error .slice
  | c :: s, offset + 1 =>
    if c.utf8Size ≤ offset + 1 then
      (splitAt s (offset + 1 - c.utf8Size)).map fun (front, back) => (c :: front, back)
    else .error .slice

/-- `&s[start..]`. -/
def sliceFrom (s : List Char) (start : ℕ) : Except Panic (List Char) :=
  (splitAt s start).map Prod.snd

/-- `&s[start..stop]`. -/
def slice (s : List Char) (start stop : ℕ) : Except Panic (List Char) :=
  if stop < start then .error .slice
  else (splitAt s stop).bind fun (front, _) => sliceFrom front start

/-- `str::find`: the offset of the first occurrence. -/
def find (pattern : List Char) : List Char → Option ℕ
  | [] => if pattern = [] then some 0 else none
  | c :: s => if pattern <+: c :: s then some 0 else (find pattern s).map (c.utf8Size + ·)

variable {c : Char} {rest seg s front back pattern : List Char}

/-! ## Offsets and slices -/

@[simp] theorem utf8Len_nil : utf8Len [] = 0 := rfl

@[simp] theorem utf8Len_cons (c : Char) (s : List Char) :
    utf8Len (c :: s) = c.utf8Size + utf8Len s := rfl

@[simp] theorem utf8Len_append (a b : List Char) : utf8Len (a ++ b) = utf8Len a + utf8Len b := by
  induction a with
  | nil => simp
  | cons c a ih => rw [List.cons_append, utf8Len_cons, utf8Len_cons, ih, Nat.add_assoc]

theorem utf8Len_pos (h : s ≠ []) : 0 < utf8Len s := by
  cases s with
  | nil => exact absurd rfl h
  | cons c s =>
    have := Char.utf8Size_pos c
    rw [utf8Len_cons]
    omega

theorem splitAt_append (front back : List Char) :
    splitAt (front ++ back) (utf8Len front) = .ok (front, back) := by
  induction front with
  | nil => cases back <;> rfl
  | cons c front ih =>
    obtain ⟨n, hn⟩ : ∃ n, utf8Len (c :: front) = n + 1 :=
      Nat.exists_eq_add_one.mpr (utf8Len_pos (List.cons_ne_nil c front))
    have hsize : n + 1 = c.utf8Size + utf8Len front := by rw [← hn, utf8Len_cons]
    rw [List.cons_append, hn, splitAt, if_pos (by omega), hsize, Nat.add_sub_cancel_left, ih]
    rfl

theorem sliceFrom_append (front back : List Char) :
    sliceFrom (front ++ back) (utf8Len front) = .ok back := by
  rw [sliceFrom, splitAt_append]
  rfl

theorem slice_append (front seg back : List Char) :
    slice (front ++ (seg ++ back)) (utf8Len front) (utf8Len front + utf8Len seg) = .ok seg := by
  have hsplit := splitAt_append (front ++ seg) back
  rw [utf8Len_append, List.append_assoc] at hsplit
  rw [slice, if_neg (by omega), hsplit]
  exact sliceFrom_append front seg

/-! ## Occurrences -/

theorem find_here (h : pattern <+: s) : find pattern s = some 0 := by
  cases s with
  | nil => rw [find, if_pos (List.prefix_nil.mp h)]
  | cons c s => rw [find, if_pos h]

theorem find_skip (h : ¬ pattern <+: c :: s) :
    find pattern (c :: s) = (find pattern s).map (c.utf8Size + ·) := by
  rw [find, if_neg h]

theorem exists_of_find {n : ℕ} (h : find pattern s = some n) :
    ∃ front back, s = front ++ (pattern ++ back) ∧ n = utf8Len front := by
  induction s generalizing n with
  | nil =>
    rw [find] at h
    split_ifs at h with hnil
    obtain rfl := Option.some.inj h
    exact ⟨[], [], by simp [hnil], rfl⟩
  | cons c s ih =>
    by_cases hpre : pattern <+: c :: s
    · rw [find_here hpre] at h
      obtain rfl := Option.some.inj h
      obtain ⟨back, hback⟩ := hpre
      exact ⟨[], back, hback.symm, rfl⟩
    · rw [find_skip hpre] at h
      obtain ⟨m, hm, rfl⟩ := Option.map_eq_some_iff.mp h
      obtain ⟨front, back, rfl, rfl⟩ := ih hm
      exact ⟨c :: front, back, rfl, (utf8Len_cons c front).symm⟩

/-- No occurrence begins in a part without the first character of the pattern. -/
theorem find_append (h : c ∉ seg) (s : List Char) :
    find (c :: rest) (seg ++ s) = (find (c :: rest) s).map (utf8Len seg + ·) := by
  induction seg with
  | nil => simp
  | cons d seg ih =>
    have hne : ¬ c :: rest <+: d :: (seg ++ s) := by
      intro hpre
      exact h ((List.cons_prefix_cons.mp hpre).1 ▸ List.mem_cons_self)
    rw [List.cons_append, find_skip hne, ih fun hmem => h (List.mem_cons_of_mem d hmem),
      Option.map_map]
    congr 1
    funext n
    rw [Function.comp_apply, utf8Len_cons, Nat.add_assoc]

/-- A part that begins like the pattern and is not the pattern. -/
def Passes (c : Char) (rest block : List Char) : Prop :=
  ∃ seg, block = c :: seg ∧ c ∉ seg ∧ ∀ back, ¬ c :: rest <+: block ++ back

theorem find_flatten {blocks : List (List Char)} (h : ∀ block ∈ blocks, Passes c rest block)
    (s : List Char) :
    find (c :: rest) (blocks.flatten ++ s) =
      (find (c :: rest) s).map (utf8Len blocks.flatten + ·) := by
  induction blocks with
  | nil => simp
  | cons block blocks ih =>
    obtain ⟨seg, rfl, hseg, hpass⟩ := h block List.mem_cons_self
    have hskip : find (c :: rest) (c :: (seg ++ (blocks.flatten ++ s))) = _ :=
      find_skip (hpass _)
    rw [List.flatten_cons, List.append_assoc, List.cons_append, hskip, find_append hseg,
      ih fun b hb => h b (List.mem_cons_of_mem _ hb), Option.map_map, Option.map_map]
    congr 1
    funext n
    simp only [Function.comp_apply, utf8Len_append, utf8Len_cons]
    omega

theorem find_eq_none (h : ¬ pattern <:+: s) : find pattern s = none := by
  cases hfind : find pattern s with
  | none => rfl
  | some n =>
    obtain ⟨front, back, rfl, -⟩ := exists_of_find hfind
    exact absurd ⟨front, back, List.append_assoc ..⟩ h

/-- After a text without the pattern the pattern is found where it stands, since its first
character does not come again in it. -/
theorem find_free (hc : c ∉ rest) (hfree : ¬ c :: rest <:+: front) (back : List Char) :
    find (c :: rest) (front ++ (c :: rest ++ back)) = some (utf8Len front) := by
  induction front with
  | nil => exact find_here (List.prefix_append _ _)
  | cons d front ih =>
    have htail : ¬ c :: rest <:+: front := fun h => hfree (h.trans (List.infix_cons_iff.mpr
      (.inr (List.infix_refl front))))
    have hhead : ¬ c :: rest <+: d :: (front ++ (c :: rest ++ back)) := by
      intro hpre
      obtain ⟨rfl, hrest⟩ := List.cons_prefix_cons.mp hpre
      rcases Nat.le_total rest.length front.length with hle | hle
      · -- the occurrence is in the text
        have hin : rest <+: front := List.prefix_of_prefix_length_le hrest
          (List.prefix_append front _) hle
        exact hfree (List.cons_prefix_cons.mpr ⟨rfl, hin⟩).isInfix
      · -- the pattern begins again inside of itself
        have hin : front <+: rest := List.prefix_of_prefix_length_le
          (List.prefix_append front _) hrest hle
        obtain ⟨tail, rfl⟩ := hin
        rw [List.prefix_append_right_inj] at hrest
        cases tail with
        | nil =>
          rw [List.append_nil] at hfree
          exact hfree (List.infix_refl _)
        | cons e tail =>
          obtain ⟨rfl, -⟩ := List.cons_prefix_cons.mp hrest
          exact hc (List.mem_append_right _ List.mem_cons_self)
    rw [List.cons_append, find_skip hhead, ih htail, Option.map_some, utf8Len_cons]

end FreeBox.Lib.StrIndex
