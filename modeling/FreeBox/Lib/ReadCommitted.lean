import FreeBox.Lib.Table

/-!
# Transactions under READ COMMITTED

A statement of an open transaction reads what is committed at that moment,
together with the transaction's own writes. The writes of an open transaction
are seen by no one else; a write that clashes with one of them waits until that
transaction has ended. `COMMIT` makes the writes of a transaction visible, and
`ROLLBACK` forgets them.

Results:
* `write_eq_done`: what a write does that neither waits nor fails.
* `Discipline.applyAll_of_keeps`: writes that could be made can be made on a later
  database that keeps what they need.
* `Sound.write`, `Sound.commit`: when clashing writes wait, every open transaction can
  commit.
-/

namespace FreeBox.Lib

/-- What a write does to a database, unless it violates a constraint, and which writes
    of two transactions wait for each other. -/
structure Writes (D W : Type*) where
  apply : W → D → Option D
  clash : W → W → Bool

/-- The committed database, the writes of each open transaction in their order, and the
    number of the next transaction. -/
structure Store (D W : Type*) where
  committed : D
  opened : Table ℕ (List W)
  next : ℕ

/-- What happens to a write. -/
inductive WriteResult (S : Type*)
  /-- Another open transaction has to end first. -/
  | waits
  /-- It violates a constraint. -/
  | violates
  | done (store : S)

namespace Store

variable {D W : Type*}

/-- No transaction is open. -/
def init (d : D) : Store D W := { committed := d, opened := ∅, next := 0 }

/-- `BEGIN`. The number of the transaction is `s.next`. -/
def begin (s : Store D W) : Store D W :=
  { s with opened := s.opened.insert s.next [], next := s.next + 1 }

/-- `ROLLBACK`, or the end of the connection. -/
def rollback (s : Store D W) (tx : ℕ) : Store D W := { s with opened := s.opened.erase tx }

/-- The transaction `tx` is the only one that is open. -/
def solo (d : D) (tx : ℕ) (ws : List W) : Store D W :=
  { committed := d, opened := (∅ : Table ℕ (List W)).insert tx ws, next := tx + 1 }

/-- A transaction other than `tx` has made a write that satisfies `p`. -/
def othersWrote (s : Store D W) (tx : ℕ) (p : W → Bool) : Bool :=
  (Table.firstWhere (fun tx' ws => tx' ≠ tx ∧ ws.any p) s.opened).isSome

end Store

namespace Writes

open Store

variable {D W : Type*} (P : Writes D W)

def applyAll (ws : List W) (d : D) : Option D := ws.foldlM (fun d w => P.apply w d) d

/-- What a statement of the transaction reads, as long as the transaction is open. -/
def view (s : Store D W) (tx : ℕ) : Option D :=
  (s.opened.lookup tx).bind fun ws => P.applyAll ws s.committed

/-- A statement that writes. -/
def write (s : Store D W) (tx : ℕ) (w : W) : WriteResult (Store D W) :=
  if s.othersWrote tx (P.clash w) then .waits
  else if ((P.view s tx).bind (P.apply w)).isSome then
    .done { s with opened := Table.modify tx (· ++ [w]) s.opened }
  else .violates

/-- `COMMIT`. -/
def commit (s : Store D W) (tx : ℕ) : Option (Store D W) :=
  (P.view s tx).map fun d => { s with committed := d, opened := s.opened.erase tx }

variable {P} {s s' : Store D W} {tx tx' : ℕ} {w w' : W} {ws ws' : List W} {d d' e : D}

theorem applyAll_cons : P.applyAll (w :: ws) d = (P.apply w d).bind (P.applyAll ws) := rfl

theorem applyAll_concat : P.applyAll (ws ++ [w]) d = (P.applyAll ws d).bind (P.apply w) := by
  rw [applyAll, List.foldlM_append]
  simp [applyAll]

/-- What holds at the start and is kept by each write holds of the result. -/
theorem applyAll_invariant (Inv : D → Prop) (h0 : Inv d)
    (hstep : ∀ w ∈ ws, ∀ d d', Inv d → P.apply w d = some d' → Inv d')
    (h : P.applyAll ws d = some e) : Inv e := by
  induction ws generalizing d with
  | nil => cases h; exact h0
  | cons w ws ih =>
    rw [applyAll_cons] at h
    obtain ⟨d₁, hw, h⟩ := Option.bind_eq_some_iff.mp h
    exact ih (hstep w List.mem_cons_self d d₁ h0 hw)
      (fun w' hw' => hstep w' (List.mem_cons_of_mem w hw')) h

theorem othersWrote_eq_false {p : W → Bool} : s.othersWrote tx p = false ↔
    ∀ tx' ws, tx' ≠ tx → s.opened.lookup tx' = some ws → ∀ w ∈ ws, p w = false := by
  rw [othersWrote, Option.isSome_eq_false_iff, Option.isNone_iff_eq_none, Table.firstWhere_eq_none]
  simp only [decide_eq_false_iff_not, not_and, List.any_eq_true, not_exists, Bool.not_eq_true]
  exact ⟨fun h tx' ws hne hws => h tx' ws hws hne, fun h tx' ws hws hne => h tx' ws hne hws⟩

theorem view_eq_some : P.view s tx = some d ↔
    ∃ ws, s.opened.lookup tx = some ws ∧ P.applyAll ws s.committed = some d :=
  Option.bind_eq_some_iff

/-- A write that neither waits nor fails is added to those of its transaction. -/
theorem write_eq_done (h : P.write s tx w = .done s') :
    s.othersWrote tx (P.clash w) = false ∧
      (∃ ws d d', s.opened.lookup tx = some ws ∧ P.applyAll ws s.committed = some d ∧
        P.apply w d = some d') ∧
      s' = { s with opened := Table.modify tx (· ++ [w]) s.opened } := by
  unfold write at h
  split_ifs at h with hwait hview
  obtain ⟨d', hd'⟩ := Option.isSome_iff_exists.mp hview
  obtain ⟨d, hd, hw⟩ := Option.bind_eq_some_iff.mp hd'
  obtain ⟨ws, hws, hall⟩ := view_eq_some.mp hd
  exact ⟨Bool.eq_false_iff.mpr hwait, ⟨ws, d, d', hws, hall, hw⟩, (WriteResult.done.inj h).symm⟩

theorem commit_eq_some (h : P.commit s tx = some s') : ∃ ws d, s.opened.lookup tx = some ws ∧
    P.applyAll ws s.committed = some d ∧
      s' = { s with committed := d, opened := s.opened.erase tx } := by
  obtain ⟨d, hd, rfl⟩ := Option.map_eq_some_iff.mp h
  obtain ⟨ws, hws, hall⟩ := view_eq_some.mp hd
  exact ⟨ws, d, hws, hall, rfl⟩

/-! ## One transaction alone -/

theorem view_solo : P.view (solo d tx ws) tx = P.applyAll ws d := by
  rw [view, solo, AList.lookup_insert, Option.bind_some]

theorem othersWrote_solo (p : W → Bool) : (solo d tx ws).othersWrote tx p = false := by
  rw [othersWrote_eq_false]
  intro tx' ws' hne hws'
  rw [solo, AList.lookup_insert_ne hne] at hws'
  cases hws'

/-- A write waits for no one. -/
theorem write_solo : P.write (solo d tx ws) tx w =
    if (P.applyAll (ws ++ [w]) d).isSome then .done (solo d tx (ws ++ [w])) else .violates := by
  have hmodify : Table.modify tx (· ++ [w]) (solo d tx ws).opened =
      (solo d tx (ws ++ [w])).opened := by
    rw [solo, Table.modify, AList.lookup_insert]
    exact AList.insert_insert ..
  rw [write, othersWrote_solo, view_solo, ← applyAll_concat, hmodify]
  rfl

theorem commit_solo (h : P.applyAll ws d = some e) : P.commit (solo d tx ws) tx =
    some { committed := e, opened := ∅, next := tx + 1 } := by
  rw [commit, view_solo, h, solo, Option.map_some, Table.erase_insert,
    Table.erase_of_lookup_none (AList.lookup_empty tx)]

theorem rollback_solo : (solo d tx ws : Store D W).rollback tx =
    { committed := d, opened := ∅, next := tx + 1 } := by
  rw [Store.rollback, solo, Table.erase_insert, Table.erase_of_lookup_none (AList.lookup_empty tx)]

/-! ## Every transaction can commit -/

/-- Writes of two transactions that do not clash leave each other possible. `keeps w d d'`
    says that `d'` has all that `w` needs of `d`. -/
structure Discipline (P : Writes D W) where
  keeps : W → D → D → Prop
  symm : ∀ w w', P.clash w w' = P.clash w' w
  refl : ∀ w d, keeps w d d
  trans : ∀ w d d' d'', keeps w d d' → keeps w d' d'' → keeps w d d''
  /-- A write keeps what another needs that it does not clash with. -/
  other : ∀ w w' d d', P.clash w w' = false → P.apply w' d = some d' → keeps w d d'
  /-- A write that is kept can be made, and then the writes after it are kept too. -/
  later : ∀ w d d' d₁, keeps w d d' → P.apply w d = some d₁ → ∃ d₁', P.apply w d' = some d₁' ∧
    ∀ w', keeps w' d d' → keeps w' d₁ d₁'

theorem Discipline.applyAll_of_keeps (L : Discipline P) (hkeeps : ∀ w ∈ ws, L.keeps w d d')
    (h : P.applyAll ws d = some e) : ∃ e', P.applyAll ws d' = some e' := by
  induction ws generalizing d d' with
  | nil => exact ⟨d', rfl⟩
  | cons w ws ih =>
    rw [applyAll_cons] at h ⊢
    obtain ⟨d₁, hw, h⟩ := Option.bind_eq_some_iff.mp h
    obtain ⟨d₁', hw', hlater⟩ := L.later w d d' d₁ (hkeeps w List.mem_cons_self) hw
    rw [hw', Option.bind_some]
    exact ih (fun w' hmem => hlater w' (hkeeps w' (List.mem_cons_of_mem w hmem))) h

/-- The writes of one transaction keep what a write of another needs. -/
theorem Discipline.keeps_applyAll (L : Discipline P) (hclash : ∀ w' ∈ ws, P.clash w w' = false)
    (h : P.applyAll ws d = some e) : L.keeps w d e :=
  applyAll_invariant (L.keeps w d) (L.refl w d)
    (fun w' hw' d₁ d₂ hd₁ happly => L.trans w d d₁ d₂ hd₁ (L.other w w' d₁ d₂ (hclash w' hw') happly))
    h

/-- Every open transaction can make its writes, and they clash with no others. -/
structure Sound (P : Writes D W) (s : Store D W) : Prop where
  possible : ∀ tx ws, s.opened.lookup tx = some ws → ∃ d, P.applyAll ws s.committed = some d
  apart : ∀ tx tx' ws ws', tx ≠ tx' → s.opened.lookup tx = some ws →
    s.opened.lookup tx' = some ws' → ∀ w ∈ ws, ∀ w' ∈ ws', P.clash w w' = false

theorem sound_init (d : D) : Sound P (init d) where
  possible tx ws h := by cases h
  apart tx tx' ws ws' _ h := by cases h

theorem Sound.begin (h : Sound P s) : Sound P s.begin := by
  have hold : ∀ tx ws, s.begin.opened.lookup tx = some ws → ws = [] ∨ s.opened.lookup tx = some ws := by
    intro tx ws hws
    rw [Store.begin, Table.lookup_insert_eq] at hws
    split_ifs at hws
    · cases hws; exact .inl rfl
    · exact .inr hws
  constructor
  · intro tx ws hws
    rcases hold tx ws hws with rfl | hws
    · exact ⟨s.committed, rfl⟩
    · exact h.possible tx ws hws
  · intro tx tx' ws ws' hne hws hws' w hw w' hw'
    rcases hold tx ws hws with rfl | hws
    · cases hw
    rcases hold tx' ws' hws' with rfl | hws'
    · cases hw'
    exact h.apart tx tx' ws ws' hne hws hws' w hw w' hw'

theorem Sound.rollback (h : Sound P s) (tx : ℕ) : Sound P (s.rollback tx) := by
  have hold : ∀ tx' ws, (s.rollback tx).opened.lookup tx' = some ws →
      s.opened.lookup tx' = some ws := by
    intro tx' ws hws
    rw [Store.rollback, Table.lookup_erase_eq] at hws
    split_ifs at hws
    exact hws
  exact ⟨fun tx' ws hws => h.possible tx' ws (hold tx' ws hws),
    fun tx₁ tx₂ ws ws' hne hws hws' => h.apart tx₁ tx₂ ws ws' hne (hold tx₁ ws hws) (hold tx₂ ws' hws')⟩

theorem Sound.write (L : Discipline P) (h : Sound P s) (hw : P.write s tx w = .done s') :
    Sound P s' := by
  obtain ⟨hfree, ⟨ws, d, d', hws, hall, happly⟩, rfl⟩ := write_eq_done hw
  rw [othersWrote_eq_false] at hfree
  have hopened : ∀ tx' ws', (Table.modify tx (· ++ [w]) s.opened).lookup tx' = some ws' →
      (tx' = tx ∧ ws' = ws ++ [w]) ∨ (tx' ≠ tx ∧ s.opened.lookup tx' = some ws') := by
    intro tx' ws' hws'
    rw [Table.lookup_modify] at hws'
    split_ifs at hws' with he
    · rw [hws] at hws'; cases hws'; exact .inl ⟨he, rfl⟩
    · exact .inr ⟨he, hws'⟩
  constructor
  · intro tx' ws' hws'
    rcases hopened tx' ws' hws' with ⟨-, rfl⟩ | ⟨-, hws'⟩
    · exact ⟨d', by rw [applyAll_concat, hall, Option.bind_some, happly]⟩
    · exact h.possible tx' ws' hws'
  · intro tx₁ tx₂ ws₁ ws₂ hne hws₁ hws₂ w₁ hw₁ w₂ hw₂
    rcases hopened tx₁ ws₁ hws₁ with ⟨rfl, rfl⟩ | ⟨hne₁, hold₁⟩
    · rcases hopened tx₂ ws₂ hws₂ with ⟨rfl, -⟩ | ⟨hne₂, hold₂⟩
      · exact absurd rfl hne
      rcases List.mem_append.mp hw₁ with hold | hnew
      · exact h.apart _ _ ws ws₂ hne hws hold₂ w₁ hold w₂ hw₂
      · rw [List.mem_singleton.mp hnew]
        exact hfree tx₂ ws₂ hne₂ hold₂ w₂ hw₂
    · rcases hopened tx₂ ws₂ hws₂ with ⟨rfl, rfl⟩ | ⟨-, hold₂⟩
      · rcases List.mem_append.mp hw₂ with hold | hnew
        · exact h.apart _ _ ws₁ ws hne hold₁ hws w₁ hw₁ w₂ hold
        · rw [List.mem_singleton.mp hnew, L.symm]
          exact hfree tx₁ ws₁ hne₁ hold₁ w₁ hw₁
      · exact h.apart tx₁ tx₂ ws₁ ws₂ hne hold₁ hold₂ w₁ hw₁ w₂ hw₂

theorem Sound.commit (L : Discipline P) (h : Sound P s) (hc : P.commit s tx = some s') :
    Sound P s' := by
  obtain ⟨ws, d, hws, hall, rfl⟩ := commit_eq_some hc
  have hrest := h.rollback tx
  refine ⟨fun tx' ws' hws' => ?_, hrest.apart⟩
  have hne : tx' ≠ tx := by
    rintro rfl
    rw [AList.lookup_erase] at hws'
    cases hws'
  rw [AList.lookup_erase_ne hne] at hws'
  obtain ⟨e, he⟩ := h.possible tx' ws' hws'
  refine L.applyAll_of_keeps (fun w hw => L.keeps_applyAll (fun w' hw' => ?_) hall) he
  exact h.apart tx' tx ws' ws hne hws' hws w hw w' hw'

/-- A transaction that is open can commit. -/
theorem Sound.commit_isSome (h : Sound P s) (hopen : (s.opened.lookup tx).isSome = true) :
    (P.commit s tx).isSome = true := by
  obtain ⟨ws, hws⟩ := Option.isSome_iff_exists.mp hopen
  obtain ⟨d, hd⟩ := h.possible tx ws hws
  rw [Writes.commit, view_eq_some.mpr ⟨ws, hws, hd⟩]
  rfl

end Writes

end FreeBox.Lib
