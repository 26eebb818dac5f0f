import Mathlib.Data.List.Basic

/-!
# Programs that ask

A program asks its environment questions and goes on with the answers: it is a tree with a
branch for every answer. What it asks is stated for all answers at once.

Results:
* `always_bind`: a program that is followed by another one.
* `Always.asked`: what holds of all questions of the tree holds of those of every run.
* `mem_asked`: the first question is asked in every run.
* `Sends.bind`, `Sends.tryCatch`, `Sends.mapM`: programs that may fail.
-/

namespace FreeBox.Lib

/-- A program with questions in `Q`. -/
inductive Program {Q : Type} (Answer : Q → Type) (α : Type) : Type
  | done (a : α)
  | ask (q : Q) (next : Answer q → Program Answer α)

namespace Program

variable {Q : Type} {Answer : Q → Type} {α β : Type}

def bind : Program Answer α → (α → Program Answer β) → Program Answer β
  | done a, f => f a
  | ask q next, f => ask q fun answer => (next answer).bind f

instance : Monad (Program Answer) where
  pure := done
  bind := bind

theorem bind_done (prog : Program Answer α) : prog.bind done = prog := by
  induction prog with
  | done a => rfl
  | ask q next ih =>
    show ask q (fun answer => (next answer).bind done) = ask q next
    congr 1
    funext answer
    exact ih answer

theorem bind_assoc {γ : Type} (prog : Program Answer α) (f : α → Program Answer β)
    (g : β → Program Answer γ) : (prog.bind f).bind g = prog.bind fun a => (f a).bind g := by
  induction prog with
  | done a => rfl
  | ask q next ih =>
    show ask q (fun answer => ((next answer).bind f).bind g) =
      ask q fun answer => (next answer).bind fun a => (f a).bind g
    congr 1
    funext answer
    exact ih answer

instance : LawfulMonad (Program Answer) :=
  LawfulMonad.mk' _ bind_done (fun _ _ => rfl) bind_assoc

/-! ## Questions -/

section Questions

variable {p : Q → Prop} {post : α → Prop} {prog : Program Answer α} {q : Q}

/-- For all answers, the questions satisfy `p` and the result `post`. -/
def Always (p : Q → Prop) (post : α → Prop) : Program Answer α → Prop
  | done a => post a
  | ask q next => p q ∧ ∀ answer, (next answer).Always p post

theorem always_bind {f : α → Program Answer β} {post : β → Prop} :
    (prog >>= f).Always p post ↔ prog.Always p fun a => (f a).Always p post := by
  induction prog with
  | done a => exact Iff.rfl
  | ask q next ih =>
    show (p q ∧ ∀ answer, (next answer >>= f).Always p post) ↔
      p q ∧ ∀ answer, (next answer).Always p fun a => (f a).Always p post
    simp only [ih]

theorem Always.mono {post' : α → Prop} (h : prog.Always p post) (hpost : ∀ a, post a → post' a) :
    prog.Always p post' := by
  induction prog with
  | done a => exact hpost a h
  | ask q next ih => exact ⟨h.1, fun answer => ih answer (h.2 answer)⟩

theorem Always.mapM {f : α → Program Answer β} {as : List α}
    (h : ∀ a ∈ as, (f a).Always p fun _ => True) : (as.mapM f).Always p fun _ => True := by
  induction as with
  | nil =>
    rw [List.mapM_nil]
    trivial
  | cons a as ih =>
    rw [List.mapM_cons, always_bind]
    refine (h a List.mem_cons_self).mono fun b _ => ?_
    rw [always_bind]
    exact (ih fun a' ha' => h a' (List.mem_cons_of_mem a ha')).mono fun _ _ => trivial

/-- The questions of a run; an answer may depend on everything that was asked before. -/
def asked (reply : List Q → (q : Q) → Answer q) : (past : List Q) → Program Answer α → List Q
  | _, done _ => []
  | past, ask q next => q :: asked reply (past ++ [q]) (next (reply past q))

theorem Always.asked {reply : List Q → (q : Q) → Answer q} {past : List Q}
    (h : prog.Always p post) (hq : q ∈ prog.asked reply past) : p q := by
  induction prog generalizing past with
  | done a => cases hq
  | ask q' next ih =>
    cases hq with
    | head => exact h.1
    | tail _ hq => exact ih (reply past q') (h.2 (reply past q')) hq

def first : Program Answer α → Option Q
  | done _ => none
  | ask q _ => some q

theorem first_bind {f : α → Program Answer β} (h : prog.first = some q) :
    (prog >>= f).first = some q := by
  cases prog with
  | done a => cases h
  | ask q' next => exact h

theorem mem_asked (reply : List Q → (q : Q) → Answer q) (h : prog.first = some q) :
    q ∈ prog.asked reply [] := by
  cases prog with
  | done a => cases h
  | ask q' next =>
    rw [← Option.some.inj h]
    exact List.mem_cons_self

end Questions

/-! ## Programs that may fail -/

section Sends

variable {ε : Type} {p : Q → Prop} {x : ExceptT ε (Program Answer) α} {post : α → Prop}

/-- For all answers, the questions satisfy `p`, and the result `post` unless it is an error. -/
def Sends (p : Q → Prop) (post : α → Prop) (x : ExceptT ε (Program Answer) α) : Prop :=
  x.run.Always p fun r => ∀ a, r = .ok a → post a

theorem Sends.pure {a : α} (h : post a) :
    Sends p post (Pure.pure a : ExceptT ε (Program Answer) α) := by
  intro b hb
  rwa [← Except.ok.inj hb]

theorem Sends.throw (e : ε) : Sends p post (throw e : ExceptT ε (Program Answer) α) := by
  intro a ha
  cases ha

theorem Sends.ofExcept (r : Except ε α) (h : ∀ a, r = .ok a → post a) :
    Sends p post (MonadExcept.ofExcept r : ExceptT ε (Program Answer) α) := by
  cases r with
  | error e => exact Sends.throw e
  | ok a => exact Sends.pure (h a rfl)

theorem Sends.of_ok {a : α} {f : α → ExceptT ε (Program Answer) β} {post' : β → Prop}
    (h : Sends p post' (f a)) : Sends p post' (MonadExcept.ofExcept (.ok a) >>= f) := h

theorem Sends.bind {f : α → ExceptT ε (Program Answer) β} {post' : β → Prop}
    (hx : Sends p post x) (hf : ∀ a, post a → Sends p post' (f a)) : Sends p post' (x >>= f) := by
  refine always_bind.mpr (Always.mono hx fun r hr => ?_)
  cases r with
  | error e => exact Sends.throw e
  | ok a => exact hf a (hr a rfl)

theorem Sends.tryCatch {handler : ε → ExceptT ε (Program Answer) α} (hx : Sends p post x)
    (hhandler : ∀ e, Sends p post (handler e)) : Sends p post (tryCatch x handler) := by
  refine always_bind.mpr (Always.mono hx fun r hr => ?_)
  cases r with
  | error e => exact hhandler e
  | ok a => exact Sends.pure (hr a rfl)

theorem Sends.mapM {f : α → ExceptT ε (Program Answer) β} {as : List α}
    (h : ∀ a ∈ as, Sends p (fun _ => True) (f a)) : Sends p (fun _ => True) (as.mapM f) := by
  induction as with
  | nil =>
    rw [List.mapM_nil]
    exact Sends.pure trivial
  | cons a as ih =>
    rw [List.mapM_cons]
    refine (h a List.mem_cons_self).bind fun b _ => ?_
    exact (ih fun a' ha' => h a' (List.mem_cons_of_mem a ha')).bind fun _ _ => Sends.pure trivial

end Sends

end Program

end FreeBox.Lib
