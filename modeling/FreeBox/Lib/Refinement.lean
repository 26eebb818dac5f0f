import Mathlib.Data.List.Basic

/-!
# Refinement of systems that answer requests

A system takes a request `a` in the state `w` to a state `w'` and an answer `b`:
`step w a w' b`. Its logs are what an observer sees of its runs, the requests with their
answers.

Results:
* `Simulates.run`: a simulation carries over from steps to runs.
* `exists_log_iff`: two systems that simulate each other have the same logs.
* `log_snoc_iff`: the last request of a log.
-/

namespace FreeBox.Lib

variable {W D A B : Type*}

/-- From `w` the requests of the log, one after another, lead to `w'` and are answered as the
    log says. -/
inductive Log (step : W → A → W → B → Prop) (w : W) : List (A × B) → W → Prop
  | nil : Log step w [] w
  | snoc {log : List (A × B)} {w₁ w₂ : W} {a : A} {b : B} :
      Log step w log w₁ → step w₁ a w₂ b → Log step w (log ++ [(a, b)]) w₂

/-- Every step from a state that is related to one of the second system is a step of the
    second system, with the same answer. -/
def Simulates (step : W → A → W → B → Prop) (spec : D → A → D → B → Prop) (R : W → D → Prop) :
    Prop :=
  ∀ w d a w' b, R w d → step w a w' b → ∃ d', spec d a d' b ∧ R w' d'

variable {step : W → A → W → B → Prop} {spec : D → A → D → B → Prop} {R : W → D → Prop}
  {w w' : W} {d : D} {log : List (A × B)}

theorem Simulates.run (h : Simulates step spec R) (hR : R w d) (hlog : Log step w log w') :
    ∃ d', Log spec d log d' ∧ R w' d' := by
  induction hlog with
  | nil => exact ⟨d, .nil, hR⟩
  | snoc _ hs ih =>
    obtain ⟨d₁, hlog₁, hR₁⟩ := ih
    obtain ⟨d₂, hspec, hR₂⟩ := h _ _ _ _ _ hR₁ hs
    exact ⟨d₂, hlog₁.snoc hspec, hR₂⟩

/-- Two systems that simulate each other cannot be told apart by their logs. -/
theorem exists_log_iff (h : Simulates step spec R) (h' : Simulates spec step fun d w => R w d)
    (hR : R w d) : (∃ w', Log step w log w') ↔ ∃ d', Log spec d log d' := by
  constructor
  · rintro ⟨w', hlog⟩
    obtain ⟨d', hlog', -⟩ := h.run hR hlog
    exact ⟨d', hlog'⟩
  · rintro ⟨d', hlog⟩
    obtain ⟨w', hlog', -⟩ := h'.run hR hlog
    exact ⟨w', hlog'⟩

/-- The last request of a log. -/
theorem log_snoc_iff {a : A} {b : B} {w₂ : W} :
    Log step w (log ++ [(a, b)]) w₂ ↔ ∃ w₁, Log step w log w₁ ∧ step w₁ a w₂ b := by
  constructor
  · intro h
    generalize hlog : log ++ [(a, b)] = log' at h
    cases h with
    | nil => simp at hlog
    | snoc hrest hs =>
      obtain ⟨rfl, hlast⟩ := List.append_inj' hlog rfl
      cases hlast
      exact ⟨_, hrest, hs⟩
  · rintro ⟨w₁, hlog, hs⟩
    exact hlog.snoc hs

end FreeBox.Lib
