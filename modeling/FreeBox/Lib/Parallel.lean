import FreeBox.Lib.Interleaving

/-!
# Two sets of handlers side by side

A server runs handlers of several kinds over one world. `par` puts two sets of
handlers together; requests of both kinds are in flight at the same time, and
every interleaving of their calls is a run. `zoom` lets handlers over a part of
the world run in the whole world.

Results:
* `par_advance_cases`, `par_onFail_cases`: a call belongs to one of the two sides.
* `zoom_advance_cases`: what a call of handlers over a part of the world does.
* `ProofOutline.of_annotates`, `ProofOutline.par`: annotations whose conditions are
  about one call at a time; one of each side is one of both when each side spares the
  assertions of the other.
-/

namespace FreeBox.Lib

variable {W J R E K S F : Type*}

/-- The same continuation, its points and responses under other names. -/
def Next.map (f : J → K) (g : R → S) : Next J R → Next K S
  | .goto j => .goto (f j)
  | .done r => .done (r.map g)

theorem Next.map_eq_goto {f : J → K} {g : R → S} {next : Next J R} {k : K}
    (h : next.map f g = .goto k) : ∃ j, next = .goto j ∧ f j = k := by
  cases next with
  | goto j => exact ⟨j, rfl, Next.goto.inj h⟩
  | done r => cases h

theorem Next.map_eq_done {f : J → K} {g : R → S} {next : Next J R} {s : S}
    (h : next.map f g = .done (some s)) : ∃ r, next = .done (some r) ∧ g r = s := by
  cases next with
  | goto j => cases h
  | done r =>
    obtain ⟨r, rfl, hr⟩ := Option.map_eq_some_iff.mp (Next.done.inj h)
    exact ⟨r, rfl, hr⟩

@[simp] theorem Next.job?_map (f : J → K) (g : R → S) (next : Next J R) :
    (next.map f g).job? = next.job?.map f := by
  cases next <;> rfl

namespace Handlers

/-- Both sets of handlers over one world. -/
def par (H₁ : Handlers W J R E) (H₂ : Handlers W K S F) : Handlers W (J ⊕ K) (R ⊕ S) (E ⊕ F) where
  entry
    | .inl j => H₁.entry j
    | .inr k => H₂.entry k
  advance w pick
    | .inl j => (H₁.advance w pick j).map fun (w', next) => (w', next.map .inl .inl)
    | .inr k => (H₂.advance w pick k).map fun (w', next) => (w', next.map .inr .inr)
  onFail pick
    | .inl j => (H₁.onFail pick j).map (Next.map .inl .inl)
    | .inr k => (H₂.onFail pick k).map (Next.map .inr .inr)
  environ w
    | .inl e => H₁.environ w e
    | .inr e => H₂.environ w e

/-- Handlers over a part of the world. -/
def zoom {V : Type*} (H : Handlers V J R E) (get : W → V) (set : W → V → W) : Handlers W J R E where
  entry := H.entry
  advance w pick j := (H.advance (get w) pick j).map fun (v, next) => (set w v, next)
  onFail := H.onFail
  environ w e := (H.environ (get w) e).map (set w)

theorem zoom_advance_cases {V : Type*} {H : Handlers V J R E} {get : W → V} {set : W → V → W}
    {w w' : W} {pick : ℕ} {j : J} {next : Next J R}
    (h : (H.zoom get set).advance w pick j = some (w', next)) :
    ∃ v, H.advance (get w) pick j = some (v, next) ∧ w' = set w v := by
  obtain ⟨⟨v, next'⟩, hadv, hcall⟩ := Option.map_eq_some_iff.mp h
  cases hcall
  exact ⟨v, hadv, rfl⟩

variable {H₁ : Handlers W J R E} {H₂ : Handlers W K S F} {w w' : W} {pick : ℕ}

variable (H₁ H₂) in
/-- A successful call of one of the two sides. -/
inductive ParCase (w : W) (pick : ℕ) : J ⊕ K → W → Next (J ⊕ K) (R ⊕ S) → Prop
  | left {j : J} {w' : W} {next : Next J R} (h : H₁.advance w pick j = some (w', next)) :
      ParCase w pick (.inl j) w' (next.map .inl .inl)
  | right {k : K} {w' : W} {next : Next K S} (h : H₂.advance w pick k = some (w', next)) :
      ParCase w pick (.inr k) w' (next.map .inr .inr)

theorem par_advance_cases {x : J ⊕ K} {next : Next (J ⊕ K) (R ⊕ S)}
    (h : (H₁.par H₂).advance w pick x = some (w', next)) : ParCase H₁ H₂ w pick x w' next := by
  cases x with
  | inl j =>
    obtain ⟨⟨w₁, next₁⟩, hadv, hcall⟩ := Option.map_eq_some_iff.mp h
    cases hcall
    exact .left hadv
  | inr k =>
    obtain ⟨⟨w₁, next₁⟩, hadv, hcall⟩ := Option.map_eq_some_iff.mp h
    cases hcall
    exact .right hadv

/-- An answer comes from one of the two sets of handlers. -/
theorem par_advance_done {x : J ⊕ K} {y : R ⊕ S}
    (h : (H₁.par H₂).advance w pick x = some (w', .done (some y))) :
    (∃ j r, x = .inl j ∧ y = .inl r ∧ H₁.advance w pick j = some (w', .done (some r))) ∨
      ∃ k r, x = .inr k ∧ y = .inr r ∧ H₂.advance w pick k = some (w', .done (some r)) := by
  generalize hnext : Next.done (some y) = next at h
  cases par_advance_cases h with
  | left hcall =>
    obtain ⟨r, rfl, rfl⟩ := Next.map_eq_done hnext.symm
    exact .inl ⟨_, r, rfl, rfl, hcall⟩
  | right hcall =>
    obtain ⟨r, rfl, rfl⟩ := Next.map_eq_done hnext.symm
    exact .inr ⟨_, r, rfl, rfl, hcall⟩

/-- The point to which a failed call leads. -/
theorem par_onFail_cases {x y : J ⊕ K} (h : (H₁.par H₂).onFail pick x = some (.goto y)) :
    (∃ j j', x = .inl j ∧ y = .inl j' ∧ H₁.onFail pick j = some (.goto j')) ∨
      ∃ k k', x = .inr k ∧ y = .inr k' ∧ H₂.onFail pick k = some (.goto k') := by
  cases x with
  | inl j =>
    obtain ⟨next, hfail, hnext⟩ := Option.map_eq_some_iff.mp h
    obtain ⟨j', rfl, rfl⟩ := Next.map_eq_goto hnext
    exact .inl ⟨j, j', rfl, rfl, hfail⟩
  | inr k =>
    obtain ⟨next, hfail, hnext⟩ := Option.map_eq_some_iff.mp h
    obtain ⟨k', rfl, rfl⟩ := Next.map_eq_goto hnext
    exact .inr ⟨k, k', rfl, rfl, hfail⟩

/-! ## Annotations -/

variable (H₁) in
/-- `I` and `A` annotate the handlers, as far as each call by itself is concerned. -/
structure Annotates (I : W → Prop) (A : W → J → Prop) : Prop where
  arrive : ∀ w j, I w → H₁.entry j → A w j
  advance : ∀ w pick j w' next, I w → A w j → H₁.advance w pick j = some (w', next) →
    I w' ∧ ∀ j', next = .goto j' → A w' j'
  fail : ∀ w pick j j', I w → A w j → H₁.onFail pick j = some (.goto j') → A w j'
  env : ∀ w e w', I w → H₁.environ w e = some w' → I w'

variable (H₁) in
/-- No call and no event of `H₁` disturbs an assertion `B`. -/
structure Spares (I : W → Prop) (A : W → J → Prop) (B : W → K → Prop) : Prop where
  advance : ∀ w pick j w' next k, I w → A w j → B w k → H₁.advance w pick j = some (w', next) →
    B w' k
  env : ∀ w e w' k, I w → B w k → H₁.environ w e = some w' → B w' k

variable {I : W → Prop} {A : W → J → Prop} {B : W → K → Prop}

/-- An assertion that says nothing is spared. -/
theorem spares_true : H₁.Spares I A fun _ (_ : K) => True :=
  ⟨fun _ _ _ _ _ _ _ _ _ _ => trivial, fun _ _ _ _ _ _ _ => trivial⟩

theorem ProofOutline.of_annotates (h : H₁.Annotates I A) (h' : H₁.Spares I A A) :
    H₁.ProofOutline anyStep I A where
  arrive _ _ j hs _ hentry := h.arrive _ j hs.1 hentry
  advance _ rid pick j w next hs _ hj hadv := h.advance _ pick j w next hs.1 (hs.2 rid j hj) hadv
  undisturbed _ rid pick j w next rid' k hs _ hj hadv _ hk :=
    h'.advance _ pick j w next k hs.1 (hs.2 rid j hj) (hs.2 rid' k hk) hadv
  fail := h.fail
  env _ e w hs _ henv := ⟨h.env _ e w hs.1 henv, fun j hj => h'.env _ e w j hs.1 hj henv⟩

theorem ProofOutline.par (h₁ : H₁.Annotates I A) (h₂ : H₂.Annotates I B)
    (h₁₁ : H₁.Spares I A A) (h₁₂ : H₁.Spares I A B) (h₂₁ : H₂.Spares I B A)
    (h₂₂ : H₂.Spares I B B) :
    (H₁.par H₂).ProofOutline anyStep I fun w => Sum.elim (A w) (B w) where
  arrive s rid x h _ hentry := by
    cases x with
    | inl j => exact h₁.arrive s.world j h.1 hentry
    | inr k => exact h₂.arrive s.world k h.1 hentry
  advance s rid pick x w next h _ hx hadv := by
    cases par_advance_cases hadv with
    | left hcall =>
      obtain ⟨hI, hA⟩ := h₁.advance _ _ _ _ _ h.1 (h.2 rid _ hx) hcall
      refine ⟨hI, fun y hy => ?_⟩
      obtain ⟨j', rfl, rfl⟩ := Next.map_eq_goto hy
      exact hA j' rfl
    | right hcall =>
      obtain ⟨hI, hB⟩ := h₂.advance _ _ _ _ _ h.1 (h.2 rid _ hx) hcall
      refine ⟨hI, fun y hy => ?_⟩
      obtain ⟨k', rfl, rfl⟩ := Next.map_eq_goto hy
      exact hB k' rfl
  undisturbed s rid pick x w next rid' y h _ hx hadv _ hy := by
    have hxA := h.2 rid x hx
    have hyA := h.2 rid' y hy
    cases par_advance_cases hadv with
    | left hcall =>
      cases y with
      | inl j => exact h₁₁.advance _ _ _ _ _ j h.1 hxA hyA hcall
      | inr k => exact h₁₂.advance _ _ _ _ _ k h.1 hxA hyA hcall
    | right hcall =>
      cases y with
      | inl j => exact h₂₁.advance _ _ _ _ _ j h.1 hxA hyA hcall
      | inr k => exact h₂₂.advance _ _ _ _ _ k h.1 hxA hyA hcall
  fail w pick x y hI hA hfail := by
    rcases par_onFail_cases hfail with ⟨j, j', rfl, rfl, hj⟩ | ⟨k, k', rfl, rfl, hk⟩
    · exact h₁.fail w pick j j' hI hA hj
    · exact h₂.fail w pick k k' hI hA hk
  env s e w h _ henv := by
    cases e with
    | inl e =>
      refine ⟨h₁.env _ e _ h.1 henv, fun x hx => ?_⟩
      cases x with
      | inl j => exact h₁₁.env _ e _ j h.1 hx henv
      | inr k => exact h₁₂.env _ e _ k h.1 hx henv
    | inr e =>
      refine ⟨h₂.env _ e _ h.1 henv, fun x hx => ?_⟩
      cases x with
      | inl j => exact h₂₁.env _ e _ j h.1 hx henv
      | inr k => exact h₂₂.env _ e _ k h.1 hx henv

end Handlers

end FreeBox.Lib
