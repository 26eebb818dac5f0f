import Mathlib.Logic.Basic
import Mathlib.Data.List.Basic

/-!
# Guarded runs of a labelled transition system

A system is a function `step : σ → α → Option σ`: the label `a` is enabled in
`s` when `step s a` is `some` state. A run takes labels one after another; a
guard `ok` restricts which labels a run may take in which state.

Results:
* `Run.invariant`: what holds at the start and is kept by every guarded step
  holds at the end of every guarded run.
* `Run.mono_of_invariant`: a run under one guard is a run under every guard
  that it implies where the invariant holds.
* `Run.occurs_concat`, `Run.history_invariant`: what has happened on the way to a state.
* `run_iff_exec`: a run is what the executable `exec` computes.
-/

namespace FreeBox.Lib

variable {σ α : Type*}

/-- `Run step ok s as t`: from `s` the labels `as` are enabled one after
    another, each meets `ok` where it is taken, and they lead to `t`. -/
inductive Run (step : σ → α → Option σ) (ok : σ → α → Prop) (s : σ) : List α → σ → Prop
  | nil : Run step ok s [] s
  | snoc {as : List α} {t u : σ} {a : α} :
      Run step ok s as t → ok t a → step t a = some u → Run step ok s (as ++ [a]) u

/-- The guard that lets every label through. -/
def anyStep : σ → α → Prop := fun _ _ => True

namespace Run

variable {step : σ → α → Option σ} {ok ok' : σ → α → Prop} {s t u : σ} {as : List α} {a : α}

/-- The invariant rule. -/
theorem invariant (h : Run step ok s as t) (Inv : σ → Prop) (h0 : Inv s)
    (hstep : ∀ s a t, Inv s → ok s a → step s a = some t → Inv t) : Inv t := by
  induction h with
  | nil => exact h0
  | snoc _ hok hs ih => exact hstep _ _ _ ih hok hs

/-- A run under `ok` is a run under `ok'` when `ok` implies `ok'` in every
    state that satisfies an invariant of the runs under `ok`. -/
theorem mono_of_invariant (h : Run step ok s as t) (Inv : σ → Prop) (h0 : Inv s)
    (hstep : ∀ s a t, Inv s → ok s a → step s a = some t → Inv t)
    (himp : ∀ s a, Inv s → ok s a → ok' s a) : Run step ok' s as t := by
  induction h with
  | nil => exact .nil
  | snoc hr hok hs ih => exact ih.snoc (himp _ _ (hr.invariant Inv h0 hstep) hok) hs

/-- A run takes labels of its own list only. -/
theorem restrict (h : Run step ok s as t) {bs : List α} (hsub : ∀ a ∈ as, a ∈ bs) :
    Run step (fun s a => ok s a ∧ a ∈ bs) s as t := by
  induction h with
  | nil => exact .nil
  | snoc _ hok hs ih =>
    exact (ih fun b hb => hsub b (List.mem_append_left _ hb)).snoc
      ⟨hok, hsub _ (List.mem_append_right _ List.mem_cons_self)⟩ hs

theorem cons (hok : ok s a) (hs : step s a = some t) (h : Run step ok t as u) :
    Run step ok s (a :: as) u := by
  induction h with
  | nil => exact .snoc (.nil) hok hs
  | snoc _ hok' hs' ih => exact ih.snoc hok' hs'

theorem append {bs : List α} (h : Run step ok s as t) (h' : Run step ok t bs u) :
    Run step ok s (as ++ bs) u := by
  induction h' with
  | nil => rwa [List.append_nil]
  | snoc _ hok hs ih =>
    rw [← List.append_assoc]
    exact ih.snoc hok hs

theorem nil_inv (h : Run step ok s [] t) : s = t := by
  generalize hl : ([] : List α) = l at h
  cases h with
  | nil => rfl
  | snoc _ _ _ => simp at hl

theorem cons_inv (h : Run step ok s (a :: as) u) :
    ∃ t, ok s a ∧ step s a = some t ∧ Run step ok t as u := by
  generalize hl : a :: as = l at h
  induction h generalizing as with
  | nil => cases hl
  | @snoc bs t u b hr hok hs ih =>
    cases bs with
    | nil =>
      cases hl
      cases hr.nil_inv
      exact ⟨u, hok, hs, .nil⟩
    | cons c cs =>
      obtain ⟨rfl, rfl⟩ := List.cons.inj hl
      obtain ⟨t', hok', hs', hr'⟩ := ih rfl
      exact ⟨t', hok', hs', hr'.snoc hok hs⟩

/-- The state between two parts of a run. -/
theorem append_inv {bs : List α} (h : Run step ok s (as ++ bs) u) :
    ∃ t, Run step ok s as t ∧ Run step ok t bs u := by
  induction as generalizing s with
  | nil => exact ⟨s, .nil, h⟩
  | cons a as ih =>
    obtain ⟨t, hok, hs, hrest⟩ := h.cons_inv
    obtain ⟨t', hr, hr'⟩ := ih hrest
    exact ⟨t', .cons hok hs hr, hr'⟩

end Run

/-! ## What has happened -/

/-- On the way of the labels `as` from `s`, some label was taken in a state that
    satisfied `P` with it. -/
def Occurs (step : σ → α → Option σ) (ok : σ → α → Prop) (s : σ) (P : σ → α → Prop)
    (as : List α) : Prop :=
  ∃ bs a cs t, as = bs ++ a :: cs ∧ Run step ok s bs t ∧ P t a

namespace Run

variable {step : σ → α → Option σ} {ok : σ → α → Prop} {s t t' : σ} {as : List α} {a : α}
  {P : σ → α → Prop}

theorem concat_inv (h : Run step ok s (as ++ [a]) t) :
    ∃ u, Run step ok s as u ∧ ok u a ∧ step u a = some t := by
  generalize hl : as ++ [a] = l at h
  cases h with
  | nil => simp at hl
  | snoc hr hok hs =>
    obtain ⟨rfl, hlast⟩ := List.append_inj' hl rfl
    cases hlast
    exact ⟨_, hr, hok, hs⟩

/-- The labels determine the state that they lead to. -/
theorem functional (h : Run step ok s as t) (h' : Run step ok s as t') : t = t' := by
  induction h generalizing t' with
  | nil => exact h'.nil_inv
  | snoc _ _ hs ih =>
    obtain ⟨u, hr', -, hs'⟩ := h'.concat_inv
    obtain rfl := ih hr'
    rw [hs] at hs'
    exact Option.some.inj hs'

theorem not_occurs_nil : ¬ Occurs step ok s P [] := by
  rintro ⟨bs, a, cs, t, hsplit, -⟩
  simp at hsplit

theorem occurs_concat (h : Run step ok s as t) :
    Occurs step ok s P (as ++ [a]) ↔ Occurs step ok s P as ∨ P t a := by
  constructor
  · rintro ⟨bs, b, cs, u, hsplit, hr, hP⟩
    rcases List.eq_nil_or_concat cs with rfl | ⟨ds, d, rfl⟩
    · obtain ⟨rfl, hlast⟩ := List.append_inj' hsplit rfl
      cases hlast
      rw [h.functional hr]
      exact .inr hP
    · rw [List.concat_eq_append, ← List.cons_append, ← List.append_assoc] at hsplit
      exact .inl ⟨bs, b, ds, u, (List.append_inj' hsplit rfl).1, hr, hP⟩
  · rintro (⟨bs, b, cs, u, rfl, hr, hP⟩ | hP)
    · exact ⟨bs, b, cs ++ [a], u, by simp, hr, hP⟩
    · exact ⟨as, a, [], t, rfl, h, hP⟩

/-- The invariant rule for a relation between the labels so far and the state. -/
theorem history_invariant (h : Run step ok s as t) (Inv : List α → σ → Prop) (h0 : Inv [] s)
    (hstep : ∀ as t a u, Run step ok s as t → Inv as t → ok t a → step t a = some u →
      Inv (as ++ [a]) u) : Inv as t := by
  induction h with
  | nil => exact h0
  | snoc hr hok hs ih => exact hstep _ _ _ _ hr ih hok hs

end Run

/-! ## Executing a run -/

/-- The state reached by `as`, if every label is enabled and meets `ok`. -/
def exec (step : σ → α → Option σ) (ok : σ → α → Prop) [∀ s a, Decidable (ok s a)] :
    σ → List α → Option σ
  | s, [] => some s
  | s, a :: as => if ok s a then (step s a).bind fun t => exec step ok t as else none

theorem run_iff_exec {step : σ → α → Option σ} {ok : σ → α → Prop} [∀ s a, Decidable (ok s a)]
    {s t : σ} {as : List α} : Run step ok s as t ↔ exec step ok s as = some t := by
  induction as generalizing s with
  | nil =>
    constructor
    · intro h; rw [exec, h.nil_inv]
    · intro h; cases h; exact .nil
  | cons a as ih =>
    rw [exec]
    constructor
    · intro h
      obtain ⟨t', hok, hs, hr⟩ := h.cons_inv
      rw [if_pos hok, hs, Option.bind_some]
      exact ih.mp hr
    · intro h
      split_ifs at h with hok
      obtain ⟨t', hs, hr⟩ := Option.bind_eq_some_iff.mp h
      exact .cons hok hs (ih.mpr hr)

/-- A run whose last state passes a test, found by executing it. -/
theorem exists_run_of_exec (step : σ → α → Option σ) (ok : σ → α → Prop)
    [∀ s a, Decidable (ok s a)] (s : σ) (as : List α) (p : σ → Bool)
    (h : (exec step ok s as).any p = true) : ∃ t, Run step ok s as t ∧ p t = true := by
  cases ht : exec step ok s as with
  | none => rw [ht] at h; cases h
  | some t => rw [ht] at h; exact ⟨t, run_iff_exec.mpr ht, h⟩

instance {s : σ} {a : α} : Decidable (anyStep s a) := .isTrue trivial

end FreeBox.Lib
