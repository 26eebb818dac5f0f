import FreeBox.Lib.Bytes
import Mathlib.Data.Set.Insert
import Mathlib.Logic.Function.Iterate

/-!
# A symbolic model of one-way derivation

Terms over atomic secrets, with public byte strings, concatenation and a derivation
that is labelled by a context. An attacker builds terms from what it knows: it can
concatenate, split concatenations and derive, and it cannot invert a derivation.

Results:
* `derivable_iff`: from a set without concatenations exactly the terms are derivable
  that are built up from its elements.
* `not_derivable_derive`: a derived term that is not known itself is derivable only if
  its argument is.
* `iterate_derive_inj`: repeated derivations under one context never meet.
-/

namespace FreeBox.Lib

/-- Terms over the secrets `S`. -/
inductive Term (S : Type*)
  | secret (a : S)
  | bytes (b : Bytes)
  | concat (t u : Term S)
  | derive (context : String) (t : Term S)
  deriving DecidableEq

namespace Term

variable {S : Type*} {known : Set (Term S)} {t u : Term S} {context context' c : String}

/-- What an attacker can make of the terms in `known`. -/
inductive Derivable (known : Set (Term S)) : Term S → Prop
  | known {t : Term S} (h : t ∈ known) : Derivable known t
  | bytes (b : Bytes) : Derivable known (.bytes b)
  | concat {t u : Term S} (ht : Derivable known t) (hu : Derivable known u) :
      Derivable known (.concat t u)
  | left {t u : Term S} (h : Derivable known (.concat t u)) : Derivable known t
  | right {t u : Term S} (h : Derivable known (.concat t u)) : Derivable known u
  | derive (context : String) {t : Term S} (h : Derivable known t) :
      Derivable known (.derive context t)

/-- The term is built up from elements of `known`. -/
def BuiltFrom (known : Set (Term S)) : Term S → Prop
  | .secret a => .secret a ∈ known
  | .bytes _ => True
  | .concat t u => BuiltFrom known t ∧ BuiltFrom known u
  | .derive context t => .derive context t ∈ known ∨ BuiltFrom known t

theorem derivable_iff (hknown : ∀ t u, Term.concat t u ∉ known) :
    Derivable known t ↔ BuiltFrom known t := by
  constructor
  · intro h
    induction h with
    | @known t h =>
      cases t with
      | secret a => exact h
      | bytes b => trivial
      | concat t u => exact absurd h (hknown t u)
      | derive context t => exact .inl h
    | bytes b => trivial
    | concat _ _ iht ihu => exact ⟨iht, ihu⟩
    | left _ ih => exact ih.1
    | right _ ih => exact ih.2
    | derive context _ ih => exact .inr ih
  · intro h
    induction t with
    | secret a => exact .known h
    | bytes b => exact .bytes b
    | concat t u iht ihu => exact .concat (iht h.1) (ihu h.2)
    | derive context t ih =>
      rcases h with h | h
      · exact .known h
      · exact .derive context (ih h)

theorem not_derivable_derive (hknown : ∀ t u, Term.concat t u ∉ known)
    (hnew : Term.derive context t ∉ known) (ht : ¬ Derivable known t) :
    ¬ Derivable known (.derive context t) := by
  rw [derivable_iff hknown] at ht ⊢
  rintro (h | h)
  · exact hnew h
  · exact ht h

theorem not_derivable_secret (hknown : ∀ t u, Term.concat t u ∉ known) {a : S}
    (hnew : Term.secret a ∉ known) : ¬ Derivable known (.secret a) := by
  rw [derivable_iff hknown]
  exact hnew

/-- Chains of derivations under `c` that start with other contexts are free. -/
theorem iterate_derive_inj (hc : context ≠ c) (hc' : context' ≠ c) {m n : ℕ}
    (h : (Term.derive c)^[m] (.derive context t) = (Term.derive c)^[n] (.derive context' u)) :
    m = n ∧ context = context' ∧ t = u := by
  induction m generalizing n with
  | zero =>
    cases n with
    | zero =>
      simp only [Function.iterate_zero, id_eq, Term.derive.injEq] at h
      exact ⟨rfl, h⟩
    | succ n =>
      rw [Function.iterate_succ_apply', Function.iterate_zero, id_eq] at h
      cases h
      exact absurd rfl hc
  | succ m ih =>
    cases n with
    | zero =>
      rw [Function.iterate_succ_apply', Function.iterate_zero, id_eq] at h
      cases h
      exact absurd rfl hc'
    | succ n =>
      rw [Function.iterate_succ_apply', Function.iterate_succ_apply'] at h
      obtain ⟨rfl, hrest⟩ := ih (Term.derive.inj h).2
      exact ⟨rfl, hrest⟩

/-- Such a chain is a derived term. -/
theorem exists_iterate_derive (c context : String) (t : Term S) (n : ℕ) :
    ∃ context' u, (Term.derive c)^[n] (.derive context t) = .derive context' u := by
  cases n with
  | zero => exact ⟨context, t, rfl⟩
  | succ n => exact ⟨c, _, Function.iterate_succ_apply' ..⟩

/-- The bytes that a term stands for. -/
def eval (kdf : String → Bytes → Bytes) (value : S → Bytes) : Term S → Bytes
  | .secret a => value a
  | .bytes b => b
  | .concat t u => eval kdf value t ++ eval kdf value u
  | .derive context t => kdf context (eval kdf value t)

end Term

end FreeBox.Lib
