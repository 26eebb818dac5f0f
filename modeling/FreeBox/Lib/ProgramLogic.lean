import FreeBox.Lib.Program

/-!
# Programs in an environment

An environment has states, and answers the questions of a program: `env s q answer s'` when in the
state `s` it may answer `q` with `answer` and be in `s'` then. A triple says what holds when a
program has ended, for every environment state that satisfies the precondition and all answers.

Results:
* `runs_bind`: the runs of a program that is followed by another one.
* `Triple.ask`, `Triple.bind`, `Triple.mono`: rules for programs.
* `TripleE.bind`, `TripleE.tryCatch`, `TripleE.mapM`: rules for programs that may fail.
-/

namespace FreeBox.Lib.Program

variable {Q S : Type} {Answer : Q → Type} {α β : Type}
  {env : S → (q : Q) → Answer q → S → Prop}

/-- The program takes the environment from `s` to `s'` and returns `a`. -/
inductive Runs (env : S → (q : Q) → Answer q → S → Prop) :
    S → Program Answer α → S → α → Prop
  | done {s : S} {a : α} : Runs env s (.done a) s a
  | ask {s s₁ s' : S} {q : Q} {next : Answer q → Program Answer α} {answer : Answer q} {a : α}
      (hask : env s q answer s₁) (hrest : Runs env s₁ (next answer) s' a) :
      Runs env s (.ask q next) s' a

variable {s s' : S} {prog : Program Answer α} {f : α → Program Answer β}

theorem runs_bind {b : β} : Runs env s (prog >>= f) s' b ↔
    ∃ s₁ a, Runs env s prog s₁ a ∧ Runs env s₁ (f a) s' b := by
  constructor
  · intro h
    induction prog generalizing s with
    | done a => exact ⟨s, a, .done, h⟩
    | ask q next ih =>
      cases h with
      | ask hask hrest =>
        obtain ⟨s₁, a, hprog, hf⟩ := ih _ hrest
        exact ⟨s₁, a, .ask hask hprog, hf⟩
  · rintro ⟨s₁, a, hprog, hf⟩
    induction hprog with
    | done => exact hf
    | ask hask _ ih => exact .ask hask (ih hf)

/-! ## Triples -/

/-- Whenever the program ends after a start in `pre`, the result and the state satisfy `post`. -/
def Triple (env : S → (q : Q) → Answer q → S → Prop) (pre : S → Prop) (prog : Program Answer α)
    (post : α → S → Prop) : Prop :=
  ∀ s s' a, pre s → Runs env s prog s' a → post a s'

variable {pre pre' : S → Prop} {post post' : α → S → Prop} {q : Q}
  {next : Answer q → Program Answer α}

theorem Triple.done {a : α} (h : ∀ s, pre s → post a s) : Triple env pre (.done a) post := by
  intro s s' b hpre hrun
  cases hrun
  exact h s hpre

theorem Triple.ask (mid : Answer q → S → Prop)
    (hask : ∀ s answer s₁, pre s → env s q answer s₁ → mid answer s₁)
    (hnext : ∀ answer, Triple env (mid answer) (next answer) post) :
    Triple env pre (.ask q next) post := by
  intro s s' a hpre hrun
  cases hrun with
  | @ask _ s₁ _ _ _ answer _ henv hrest =>
    exact hnext answer s₁ s' a (hask s answer s₁ hpre henv) hrest

theorem Triple.bind {mid : α → S → Prop} {post : β → S → Prop} (hprog : Triple env pre prog mid)
    (hf : ∀ a, Triple env (mid a) (f a) post) : Triple env pre (prog >>= f) post := by
  intro s s' b hpre hrun
  obtain ⟨s₁, a, hrun₁, hrun₂⟩ := runs_bind.mp hrun
  exact hf a s₁ s' b (hprog s s₁ a hpre hrun₁) hrun₂

theorem Triple.mono (h : Triple env pre prog post) (hpre : ∀ s, pre' s → pre s)
    (hpost : ∀ a s, post a s → post' a s) : Triple env pre' prog post' :=
  fun s s' a hs hrun => hpost a s' (h s s' a (hpre s hs) hrun)

theorem Triple.mapM {f : α → Program Answer β} {as : List α}
    (h : ∀ a ∈ as, Triple env pre (f a) fun _ => pre) :
    Triple env pre (as.mapM f) fun _ => pre := by
  induction as with
  | nil =>
    rw [List.mapM_nil]
    exact .done fun _ hs => hs
  | cons a as ih =>
    rw [List.mapM_cons]
    refine (h a List.mem_cons_self).bind fun b => ?_
    refine (ih fun a' ha' => h a' (List.mem_cons_of_mem a ha')).bind fun bs => ?_
    exact .done fun _ hs => hs

/-! ## Programs that may fail -/

section Errors

variable {ε : Type} {x : ExceptT ε (Program Answer) α} {err : S → Prop}

/-- What holds of a result, and what holds after an error. -/
def Outcome (post : α → S → Prop) (err : S → Prop) : Except ε α → S → Prop
  | .ok a => post a
  | .error _ => err

/-- After a start in `pre`, the result and the state satisfy `post`, or the program fails and the
    state satisfies `err`. -/
def TripleE (env : S → (q : Q) → Answer q → S → Prop) (pre : S → Prop)
    (x : ExceptT ε (Program Answer) α) (post : α → S → Prop) (err : S → Prop) : Prop :=
  Triple env pre x.run (Outcome post err)

theorem TripleE.pure {a : α} (h : ∀ s, pre s → post a s) :
    TripleE env pre (Pure.pure a : ExceptT ε (Program Answer) α) post err :=
  .done h

theorem TripleE.throw {e : ε} (h : ∀ s, pre s → err s) :
    TripleE env pre (throw e : ExceptT ε (Program Answer) α) post err :=
  .done h

theorem TripleE.ofExcept {r : Except ε α} (hok : ∀ a, r = .ok a → ∀ s, pre s → post a s)
    (herr : ∀ e, r = .error e → ∀ s, pre s → err s) :
    TripleE env pre (MonadExcept.ofExcept r : ExceptT ε (Program Answer) α) post err := by
  cases r with
  | ok a => exact .pure (hok a rfl)
  | error e => exact .throw (herr e rfl)

theorem TripleE.mono {err' : S → Prop} (h : TripleE env pre x post err)
    (hpre : ∀ s, pre' s → pre s) (hpost : ∀ a s, post a s → post' a s)
    (herr : ∀ s, err s → err' s) : TripleE env pre' x post' err' := by
  refine Triple.mono h hpre fun r s hs => ?_
  cases r with
  | ok a => exact hpost a s hs
  | error e => exact herr s hs

theorem TripleE.of_ok {a : α} {f : α → ExceptT ε (Program Answer) β} {post : β → S → Prop}
    (h : TripleE env pre (f a) post err) :
    TripleE env pre (MonadExcept.ofExcept (.ok a) >>= f) post err :=
  h

theorem TripleE.bind {f : α → ExceptT ε (Program Answer) β} {mid : α → S → Prop}
    {post : β → S → Prop} (hx : TripleE env pre x mid err)
    (hf : ∀ a, TripleE env (mid a) (f a) post err) : TripleE env pre (x >>= f) post err := by
  refine Triple.bind hx fun r => ?_
  cases r with
  | ok a => exact hf a
  | error e => exact .done fun _ hs => hs

/-- The handler runs after an error. -/
theorem TripleE.tryCatch {handler : ε → ExceptT ε (Program Answer) α} {mid : S → Prop}
    (hx : TripleE env pre x post mid) (hhandler : ∀ e, TripleE env mid (handler e) post err) :
    TripleE env pre (tryCatch x handler) post err := by
  refine Triple.bind hx fun r => ?_
  cases r with
  | ok a => exact .done fun _ hs => hs
  | error e => exact hhandler e

theorem TripleE.mapM {f : α → ExceptT ε (Program Answer) β} {as : List α}
    (h : ∀ a ∈ as, TripleE env pre (f a) (fun _ => pre) err) :
    TripleE env pre (as.mapM f) (fun _ => pre) err := by
  induction as with
  | nil =>
    rw [List.mapM_nil]
    exact .pure fun _ hs => hs
  | cons a as ih =>
    rw [List.mapM_cons]
    refine (h a List.mem_cons_self).bind fun b => ?_
    refine (ih fun a' ha' => h a' (List.mem_cons_of_mem a ha')).bind fun bs => ?_
    exact .pure fun _ hs => hs

end Errors

end FreeBox.Lib.Program
