import Mathlib.Data.List.Forall2

/-!
# Programs that change a state and may fail

Rules for programs in `ExceptT ε (StateM σ)`. A program that fails keeps
the changes it has made so far.

Results:
* `bind_ok`, `bind_error`, `bind_ofExcept`: a step after another one.
* `mapM_cons_ok`, `mapM_ok`: loops.
-/

namespace FreeBox.Lib.StateExcept

universe v

variable {σ ε α β : Type v} {x : ExceptT ε (StateM σ) α} {f : α → ExceptT ε (StateM σ) β}
  {a : α} {b : β} {s t u : σ}

theorem bind_ok (h : x s = (.ok a, t)) : (x >>= f) s = f a t := by
  simp only [bind, ExceptT.bind, ExceptT.mk, StateT.bind, h]
  rfl

theorem bind_error {e : ε} (h : x s = (.error e, t)) : (x >>= f) s = (.error e, t) := by
  simp only [bind, ExceptT.bind, ExceptT.mk, StateT.bind, h]
  rfl

theorem bind_ofExcept {e : Except ε α} (h : e = .ok a) :
    (MonadExcept.ofExcept e >>= f) s = f a s := by
  rw [h]
  rfl

/-- One round of a loop. -/
theorem mapM_cons_ok {as : List α} {bs : List β} (ha : f a s = (.ok b, t))
    (has : as.mapM f t = (.ok bs, u)) : (a :: as).mapM f s = (.ok (b :: bs), u) := by
  rw [List.mapM_cons, bind_ok ha, bind_ok has]
  rfl

/-- A loop whose rounds leave the state as it is. -/
theorem mapM_ok {as : List α} {bs : List β}
    (h : List.Forall₂ (fun a b => f a s = (.ok b, s)) as bs) : as.mapM f s = (.ok bs, s) := by
  induction h with
  | nil => rfl
  | cons ha _ ih => exact mapM_cons_ok ha ih

end FreeBox.Lib.StateExcept
