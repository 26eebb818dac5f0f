import Mathlib.Data.List.Basic
import Mathlib.Data.List.Induction

/-!
# Traces of a machine with output

A machine is a function `step : σ → ι → σ × ο`: an input leads to the next state
and to an answer. The trace of a list of inputs pairs each input with its answer,
oldest first, so that a statement about "all earlier calls" is one about a prefix
of the trace.

Results:
* `trace_append`, `stateAfter_append`: inputs that come in two parts.
* `trace_split`: what stands before an entry of a trace is the trace of the
  inputs before it, and the entry's answer is that of the state they lead to.
* `mem_trace`: the entries of a trace.
* `map_trace`, `trace_simulates`: the traces of a machine wrapped around another one, and of one
  that is simulated by another.
* `history_invariant`: the invariant rule for a relation between the trace so far
  and the state.
-/

namespace FreeBox.Lib

variable {σ ι ο : Type*} (step : σ → ι → σ × ο)

/-- The state after the inputs. -/
def stateAfter (s : σ) (inputs : List ι) : σ := inputs.foldl (fun s i => (step s i).1) s

/-- Each input with the answer to it. -/
def trace : σ → List ι → List (ι × ο)
  | _, [] => []
  | s, i :: inputs => (i, (step s i).2) :: trace (step s i).1 inputs

variable {step} {s : σ} {i : ι} {inputs inputs' : List ι}

@[simp] theorem stateAfter_nil : stateAfter step s [] = s := rfl

@[simp] theorem stateAfter_cons :
    stateAfter step s (i :: inputs) = stateAfter step (step s i).1 inputs := rfl

theorem stateAfter_append : stateAfter step s (inputs ++ inputs') =
    stateAfter step (stateAfter step s inputs) inputs' :=
  List.foldl_append

theorem stateAfter_concat :
    stateAfter step s (inputs ++ [i]) = (step (stateAfter step s inputs) i).1 := by
  rw [stateAfter_append]; rfl

@[simp] theorem trace_nil : trace step s [] = [] := rfl

@[simp] theorem trace_cons :
    trace step s (i :: inputs) = (i, (step s i).2) :: trace step (step s i).1 inputs := rfl

theorem trace_append : trace step s (inputs ++ inputs') =
    trace step s inputs ++ trace step (stateAfter step s inputs) inputs' := by
  induction inputs generalizing s with
  | nil => rfl
  | cons i inputs ih => rw [List.cons_append, trace_cons, trace_cons, ih]; rfl

theorem trace_concat : trace step s (inputs ++ [i]) =
    trace step s inputs ++ [(i, (step (stateAfter step s inputs) i).2)] := by
  rw [trace_append]; rfl

@[simp] theorem map_fst_trace : (trace step s inputs).map Prod.fst = inputs := by
  induction inputs generalizing s with
  | nil => rfl
  | cons i inputs ih => rw [trace_cons, List.map_cons, ih]

@[simp] theorem length_trace : (trace step s inputs).length = inputs.length := by
  rw [← List.length_map Prod.fst, map_fst_trace]

/-- An entry of a trace and what stands before it. -/
theorem trace_split {before rest : List (ι × ο)} {e : ι × ο}
    (h : trace step s inputs = before ++ e :: rest) :
    before = trace step s (before.map Prod.fst) ∧
      e.2 = (step (stateAfter step s (before.map Prod.fst)) e.1).2 ∧
      inputs = before.map Prod.fst ++ e.1 :: rest.map Prod.fst := by
  have hinputs : inputs = before.map Prod.fst ++ e.1 :: rest.map Prod.fst := by
    have := congrArg (List.map Prod.fst) h
    simpa using this
  have htrace := h
  rw [hinputs, trace_append, trace_cons] at htrace
  obtain ⟨hbefore, hrest⟩ := List.append_inj htrace (by simp)
  refine ⟨hbefore.symm, ?_, hinputs⟩
  rw [← (List.cons.inj hrest).1]

theorem mem_trace {e : ι × ο} : e ∈ trace step s inputs ↔ ∃ before rest,
    inputs = before ++ e.1 :: rest ∧ e.2 = (step (stateAfter step s before) e.1).2 := by
  constructor
  · intro h
    obtain ⟨before, rest, hsplit⟩ := List.append_of_mem h
    obtain ⟨-, hanswer, hinputs⟩ := trace_split hsplit
    exact ⟨before.map Prod.fst, rest.map Prod.fst, hinputs, hanswer⟩
  · rintro ⟨before, rest, rfl, hanswer⟩
    rw [trace_append, trace_cons, ← hanswer]
    exact List.mem_append_right _ List.mem_cons_self

/-- A machine that translates its inputs with `f` for another machine, and whose answers
    `g` translates back, has the other machine's traces. -/
theorem map_trace {σ ι ο ι' ο' : Type*} {step : σ → ι → σ × ο} {step' : σ → ι' → σ × ο'}
    (f : ι' → ι) (g : ο' → ο) (hstate : ∀ s i, (step' s i).1 = (step s (f i)).1)
    (hanswer : ∀ s i, g (step' s i).2 = (step s (f i)).2) (s : σ) (inputs : List ι') :
    (trace step' s inputs).map (Prod.map f g) = trace step s (inputs.map f) := by
  induction inputs generalizing s with
  | nil => rfl
  | cons i inputs ih =>
    rw [trace_cons, List.map_cons, ih, List.map_cons, trace_cons, hstate, Prod.map_apply, hanswer]

/-- A machine that translates its inputs with `f` and its answers with `g`, and whose states stay
    related to those of another machine, answers like it. -/
theorem trace_simulates {σ ι ο σ' ι' ο' : Type*} {step : σ → ι → σ × ο}
    {step' : σ' → ι' → σ' × ο'} {R : σ' → σ → Prop} {f : ι' → ι} {g : ο → ο'}
    (hstep : ∀ s' s i, R s' s → R (step' s' i).1 (step s (f i)).1 ∧
      (step' s' i).2 = g (step s (f i)).2)
    {s' : σ'} {s : σ} (h : R s' s) (inputs : List ι') :
    R (stateAfter step' s' inputs) (stateAfter step s (inputs.map f)) ∧
      (trace step' s' inputs).map Prod.snd =
        (trace step s (inputs.map f)).map fun e => g e.2 := by
  induction inputs generalizing s' s with
  | nil => exact ⟨h, rfl⟩
  | cons i inputs ih =>
    obtain ⟨hR, hanswer⟩ := hstep s' s i h
    obtain ⟨hafter, htrace⟩ := ih hR
    exact ⟨hafter, by simp [hanswer, htrace]⟩

/-- The invariant rule. `Inv` relates the trace so far to the state; `ok` is what is
    assumed of each entry, given the trace before it. -/
theorem history_invariant (Inv : List (ι × ο) → σ → Prop) (ok : List (ι × ο) → ι × ο → Prop)
    (h0 : Inv [] s)
    (hstep : ∀ before s i, Inv before s → ok before (i, (step s i).2) →
      Inv (before ++ [(i, (step s i).2)]) (step s i).1)
    (hok : ∀ before e rest, trace step s inputs = before ++ e :: rest → ok before e) :
    Inv (trace step s inputs) (stateAfter step s inputs) := by
  induction inputs using List.reverseRecOn with
  | nil => exact h0
  | append_singleton inputs i ih =>
    rw [trace_concat] at hok ⊢
    rw [stateAfter_concat]
    refine hstep _ _ _ (ih fun before e rest hsplit => ?_) (hok _ _ [] rfl)
    exact hok before e (rest ++ [(i, (step (stateAfter step s inputs) i).2)]) (by rw [hsplit]; simp)

end FreeBox.Lib
