import FreeBox.Lib.Parallel

/-!
# Tables with fresh keys

Requests draw a key when they arrive, and a new row of a table is written only under
the key that its request has drawn. No key is drawn twice, and none is drawn that the
table holds at the start.

Results:
* `DrawsKeys.zoom`, `DrawsKeys.par`: handlers over a part of the world, and two sets of
  handlers side by side.
* `DrawsKeys.absent_step`: a key that no request in flight has is not written.
* `stays_gone`: a row that has left the table does not come back.
-/

namespace FreeBox.Lib.Handlers

variable {W J R E κ ρ : Type*} [DecidableEq κ]

/-- The handlers write new rows of `table` only under the key that the request has drawn,
    and a request that has done so has no key any more. -/
structure DrawsKeys (H : Handlers W J R E) (table : W → Table κ ρ) (draw : J → Option κ) :
    Prop where
  advance : ∀ w pick j w' next, H.advance w pick j = some (w', next) →
    ∀ k row, (table w').lookup k = some row → (table w).lookup k = some row ∨
      ((table w).lookup k = none ∧ draw j = some k ∧ next.job?.bind draw = none)
  goesOn : ∀ w pick j w' j', H.advance w pick j = some (w', .goto j') →
    draw j' = none ∨ draw j' = draw j
  fail : ∀ pick j j', H.onFail pick j = some (.goto j') → draw j' = none ∨ draw j' = draw j
  environ : ∀ w e w', H.environ w e = some w' →
    ∀ k row, (table w').lookup k = some row → (table w).lookup k = some row

/-- The keys that the requests of a run draw. -/
def drawnKeys (draw : J → Option κ) (as : List (Action J E)) : List κ :=
  as.filterMap fun
    | .arrive _ j => draw j
    | _ => none

/-- No key is drawn twice or is in the table already. -/
structure FreshDraws (table : W → Table κ ρ) (draw : J → Option κ) (w₀ : W)
    (as : List (Action J E)) : Prop where
  nodup : (drawnKeys draw as).Nodup
  new : ∀ k ∈ drawnKeys draw as, (table w₀).lookup k = none

variable (H : Handlers W J R E) (table : W → Table κ ρ)

/-- The step writes the row, under a key that was free. -/
def Stores (k : κ) (row : ρ) (s : Sys W J R) (a : Action J E) : Prop :=
  (table s.world).lookup k = none ∧ ∃ t, H.step s a = some t ∧
    (table t.world).lookup k = some row

/-- The row was in the table at the start or was written in the run. -/
def EverStored (w₀ : W) (as : List (Action J E)) (k : κ) (row : ρ) : Prop :=
  (table w₀).lookup k = some row ∨
    Occurs H.step anyStep (Sys.idle w₀) (H.Stores table k row) as

variable {H table} {draw : J → Option κ} {w₀ : W} {as bs : List (Action J E)} {a : Action J E}
  {s t : Sys W J R} {k : κ} {row row' : ρ} {rid rid' : ℕ} {j j' : J}

omit [DecidableEq κ] in
theorem drawnKeys_append : drawnKeys draw (as ++ bs) = drawnKeys draw as ++ drawnKeys draw bs :=
  List.filterMap_append

theorem FreshDraws.of_append (h : FreshDraws table draw w₀ (as ++ bs)) :
    FreshDraws table draw w₀ as where
  nodup := by
    have hnodup := h.nodup
    rw [drawnKeys_append] at hnodup
    exact hnodup.of_append_left
  new k hk := by
    apply h.new k
    rw [drawnKeys_append]
    exact List.mem_append_left _ hk

/-- A key that is drawn now was not drawn before. -/
theorem FreshDraws.not_drawn (h : FreshDraws table draw w₀ (as ++ [a]))
    (hk : k ∈ drawnKeys draw [a]) : k ∉ drawnKeys draw as := by
  intro hold
  have hnodup := h.nodup
  rw [drawnKeys_append] at hnodup
  exact List.disjoint_of_nodup_append hnodup hold hk

omit [DecidableEq κ] in
theorem mem_drawnKeys_arrive (hk : draw j = some k) :
    k ∈ drawnKeys draw [(.arrive rid j : Action J E)] := by
  simp [drawnKeys, hk]

theorem EverStored.concat (hr : Run H.step anyStep (Sys.idle w₀) as s)
    (h : H.EverStored table w₀ as k row) : H.EverStored table w₀ (as ++ [a]) k row :=
  h.imp_right fun hocc => (Run.occurs_concat hr).mpr (.inl hocc)

theorem EverStored.append (hr : Run H.step anyStep (Sys.idle w₀) (as ++ bs) s)
    (h : H.EverStored table w₀ as k row) : H.EverStored table w₀ (as ++ bs) k row := by
  apply h.imp_right
  rintro ⟨cs, b, ds, u, rfl, hrun, hstores⟩
  exact ⟨cs, b, ds ++ bs, u, by simp, hrun, hstores⟩

/-- What has been stored at the end was stored before, or is stored in the last step. -/
theorem EverStored.of_concat (hr : Run H.step anyStep (Sys.idle w₀) as s)
    (h : H.EverStored table w₀ (as ++ [a]) k row) :
    H.EverStored table w₀ as k row ∨ H.Stores table k row s a := by
  rcases h with hinit | hocc
  · exact .inl (.inl hinit)
  · exact ((Run.occurs_concat hr).mp hocc).imp_left .inr

/-! ## One step -/

/-- A request with a key had it before, or draws it now. -/
theorem DrawsKeys.draw_step (hH : H.DrawsKeys table draw) (hs : H.step s a = some t)
    (hj : t.jobs.lookup rid = some j) (hk : draw j = some k) :
    (∃ j₀, s.jobs.lookup rid = some j₀ ∧ draw j₀ = some k) ∨ a = .arrive rid j := by
  cases job_origin hs hj with
  | old hold => exact .inl ⟨j, hold, hk⟩
  | arrived => exact .inr rfl
  | @advanced _ j₀ _ hj₀ hw =>
    rcases hH.goesOn _ _ _ _ _ hw with hnone | hsame
    · rw [hnone] at hk; cases hk
    · exact .inl ⟨j₀, hj₀, hsame ▸ hk⟩
  | @failed _ j₀ _ hj₀ hn =>
    rcases hH.fail _ _ _ hn with hnone | hsame
    · rw [hnone] at hk; cases hk
    · exact .inl ⟨j₀, hj₀, hsame ▸ hk⟩

/-- A row of the table was there before, or a request with its key writes it now and has
    no key afterwards. -/
theorem DrawsKeys.row_step (hH : H.DrawsKeys table draw) (hs : H.step s a = some t)
    (hrow : (table t.world).lookup k = some row) :
    (table s.world).lookup k = some row ∨
      ((table s.world).lookup k = none ∧ ∃ rid j, s.jobs.lookup rid = some j ∧ draw j = some k ∧
        ∀ j', t.jobs.lookup rid = some j' → draw j' = none) := by
  cases step_cases hs with
  | arrive | fail | cancel => exact .inl hrow
  | @advance rid pick j w next hj hw =>
    rcases hH.advance _ _ _ _ _ hw k row hrow with hold | ⟨hfree, hdraw, hdone⟩
    · exact .inl hold
    · refine .inr ⟨hfree, rid, j, hj, hdraw, fun j' hj' => ?_⟩
      rw [Sys.lookup_settle, if_pos rfl] at hj'
      rw [hj'] at hdone
      exact hdone
  | env hw => exact .inl (hH.environ _ _ _ hw k row hrow)

/-- A key that no request in flight has gets no row. -/
theorem DrawsKeys.absent_step (hH : H.DrawsKeys table draw) (hs : H.step s a = some t)
    (habsent : ∀ rid j, s.jobs.lookup rid = some j → draw j ≠ some k)
    (hrow : (table t.world).lookup k = some row) : (table s.world).lookup k = some row := by
  rcases hH.row_step hs hrow with hold | ⟨-, rid, j, hj, hdraw, -⟩
  · exact hold
  · exact absurd hdraw (habsent rid j hj)

/-! ## Handlers from handlers -/

section Combine

variable {V K S F : Type*}

theorem DrawsKeys.zoom {H : Handlers V J R E} {part : V → Table κ ρ} (hH : H.DrawsKeys part draw)
    {get : W → V} {set : W → V → W} {table : W → Table κ ρ} (hget : ∀ w, table w = part (get w))
    (hset : ∀ w v, table (set w v) = part v) : (H.zoom get set).DrawsKeys table draw where
  advance w pick j w' next h k row hrow := by
    obtain ⟨v, hadv, rfl⟩ := zoom_advance_cases h
    rw [hset] at hrow
    rw [hget]
    exact hH.advance _ _ _ _ _ hadv k row hrow
  goesOn w pick j w' j' h := by
    obtain ⟨v, hadv, -⟩ := zoom_advance_cases h
    exact hH.goesOn _ _ _ _ _ hadv
  fail := hH.fail
  environ w e w' h k row hrow := by
    obtain ⟨v, henv, rfl⟩ := Option.map_eq_some_iff.mp h
    rw [hset] at hrow
    rw [hget]
    exact hH.environ _ _ _ henv k row hrow

theorem DrawsKeys.par {H₁ : Handlers W J R E} {H₂ : Handlers W K S F} {table : W → Table κ ρ}
    {draw' : K → Option κ} (h₁ : H₁.DrawsKeys table draw) (h₂ : H₂.DrawsKeys table draw') :
    (H₁.par H₂).DrawsKeys table (Sum.elim draw draw') where
  advance w pick x w' next h k row hrow := by
    cases par_advance_cases h with
    | left hcall =>
      refine (h₁.advance _ _ _ _ _ hcall k row hrow).imp_right ?_
      rintro ⟨hfree, hdraw, hdone⟩
      refine ⟨hfree, hdraw, ?_⟩
      rw [Next.job?_map, Option.bind_map]
      exact hdone
    | right hcall =>
      refine (h₂.advance _ _ _ _ _ hcall k row hrow).imp_right ?_
      rintro ⟨hfree, hdraw, hdone⟩
      refine ⟨hfree, hdraw, ?_⟩
      rw [Next.job?_map, Option.bind_map]
      exact hdone
  goesOn w pick x w' y h := by
    generalize hnext : Next.goto y = next at h
    cases par_advance_cases h with
    | left hcall =>
      obtain ⟨j', rfl, rfl⟩ := Next.map_eq_goto hnext.symm
      exact h₁.goesOn _ _ _ _ _ hcall
    | right hcall =>
      obtain ⟨j', rfl, rfl⟩ := Next.map_eq_goto hnext.symm
      exact h₂.goesOn _ _ _ _ _ hcall
  fail pick x y h := by
    rcases par_onFail_cases h with ⟨j, j', rfl, rfl, hj⟩ | ⟨j, j', rfl, rfl, hj⟩
    · exact h₁.fail _ _ _ hj
    · exact h₂.fail _ _ _ hj
  environ w e w' h k row hrow := by
    cases e with
    | inl e => exact h₁.environ _ _ _ h k row hrow
    | inr e => exact h₂.environ _ _ _ h k row hrow

end Combine

/-! ## Runs -/

/-- What has become of a key so far. -/
structure KeyLife (H : Handlers W J R E) (table : W → Table κ ρ) (draw : J → Option κ) (w₀ : W)
    (k : κ) (as : List (Action J E)) (s : Sys W J R) : Prop where
  /-- A request that has the key has drawn it. -/
  drawn : ∀ rid j, s.jobs.lookup rid = some j → draw j = some k → k ∈ drawnKeys draw as
  single : ∀ rid rid' j j', s.jobs.lookup rid = some j → s.jobs.lookup rid' = some j' →
    draw j = some k → draw j' = some k → rid = rid'
  /-- While a request has the key, nothing has been stored under it. -/
  waiting : ∀ rid j row, s.jobs.lookup rid = some j → draw j = some k →
    ¬ H.EverStored table w₀ as k row
  stored : ∀ row, H.EverStored table w₀ as k row →
    k ∈ drawnKeys draw as ∨ (table w₀).lookup k ≠ none
  found : ∀ row, (table s.world).lookup k = some row → H.EverStored table w₀ as k row
  unique : ∀ row row', H.EverStored table w₀ as k row → H.EverStored table w₀ as k row' → row = row'

theorem keyLife_idle (w₀ : W) (k : κ) : KeyLife H table draw w₀ k [] (Sys.idle w₀) where
  drawn rid j hj := by simp [Sys.idle] at hj
  single rid rid' j j' hj := by simp [Sys.idle] at hj
  waiting rid j row hj := by simp [Sys.idle] at hj
  stored row h := by
    rcases h with h | h
    · right; rw [h]; simp
    · exact absurd h Run.not_occurs_nil
  found row h := .inl h
  unique row row' h h' := by
    rcases h with h | h
    · rcases h' with h' | h'
      · rw [h] at h'; exact Option.some.inj h'
      · exact absurd h' Run.not_occurs_nil
    · exact absurd h Run.not_occurs_nil

/-- The step that stores a row under the key takes the key from its request. -/
theorem KeyLife.stores (hH : H.DrawsKeys table draw) (hs : H.step s a = some t)
    (h : H.Stores table k row s a) :
    (table t.world).lookup k = some row ∧ ∃ rid j, s.jobs.lookup rid = some j ∧ draw j = some k ∧
      ∀ j', t.jobs.lookup rid = some j' → draw j' = none := by
  obtain ⟨hfree, t', hs', hrow⟩ := h
  rw [hs] at hs'
  obtain rfl := Option.some.inj hs'
  refine ⟨hrow, ?_⟩
  rcases hH.row_step hs hrow with hold | ⟨-, hwriter⟩
  · rw [hfree] at hold; cases hold
  · exact hwriter

/-- A request that has the key had it before, or draws it now as the first one. -/
theorem KeyLife.holder (hH : H.DrawsKeys table draw) (hs : H.step s a = some t)
    (hfresh : FreshDraws table draw w₀ (as ++ [a])) (hj : t.jobs.lookup rid = some j)
    (hdraw : draw j = some k) :
    (∃ j₀, s.jobs.lookup rid = some j₀ ∧ draw j₀ = some k) ∨
      (a = .arrive rid j ∧ k ∈ drawnKeys draw [a] ∧ k ∉ drawnKeys draw as) := by
  rcases hH.draw_step hs hj hdraw with hold | rfl
  · exact .inl hold
  · have hnew : k ∈ drawnKeys draw [(.arrive rid j : Action J E)] := mem_drawnKeys_arrive hdraw
    exact .inr ⟨rfl, hnew, hfresh.not_drawn hnew⟩

section Step

variable (hH : H.DrawsKeys table draw) (h : KeyLife H table draw w₀ k as s)
  (hr : Run H.step anyStep (Sys.idle w₀) as s) (hs : H.step s a = some t)
  (hfresh : FreshDraws table draw w₀ (as ++ [a]))
include hH h hs hfresh

theorem KeyLife.single_step (hj : t.jobs.lookup rid = some j) (hj' : t.jobs.lookup rid' = some j')
    (hdraw : draw j = some k) (hdraw' : draw j' = some k) : rid = rid' := by
  rcases KeyLife.holder hH hs hfresh hj hdraw with ⟨j₀, hj₀, hdraw₀⟩ | ⟨ha, -, hold⟩
  · rcases KeyLife.holder hH hs hfresh hj' hdraw' with ⟨j₁, hj₁, hdraw₁⟩ | ⟨-, -, hold'⟩
    · exact h.single rid rid' j₀ j₁ hj₀ hj₁ hdraw₀ hdraw₁
    · exact absurd (h.drawn rid j₀ hj₀ hdraw₀) hold'
  · rcases KeyLife.holder hH hs hfresh hj' hdraw' with ⟨j₁, hj₁, hdraw₁⟩ | ⟨ha', -, -⟩
    · exact absurd (h.drawn rid' j₁ hj₁ hdraw₁) hold
    · rw [ha] at ha'
      cases ha'
      rfl

include hr

theorem KeyLife.waiting_step (hj : t.jobs.lookup rid = some j) (hdraw : draw j = some k) :
    ¬ H.EverStored table w₀ (as ++ [a]) k row := by
  intro hrow
  rcases KeyLife.holder hH hs hfresh hj hdraw with ⟨j₀, hj₀, hdraw₀⟩ | ⟨-, hnew, hold⟩
  · rcases hrow.of_concat hr with hbefore | hnow
    · exact h.waiting rid j₀ row hj₀ hdraw₀ hbefore
    · -- the request that stores the row is this one, and it has lost its key
      obtain ⟨-, rid', j', hj', hdraw', hdone⟩ := KeyLife.stores hH hs hnow
      obtain rfl := h.single rid rid' j₀ j' hj₀ hj' hdraw₀ hdraw'
      rw [hdone j hj] at hdraw
      cases hdraw
  · rcases hrow.of_concat hr with hbefore | hnow
    · rcases h.stored row hbefore with hdrawn | hinit
      · exact hold hdrawn
      · apply hinit
        apply hfresh.new
        rw [drawnKeys_append]
        exact List.mem_append_right _ hnew
    · obtain ⟨-, rid', j', hj', hdraw', -⟩ := KeyLife.stores hH hs hnow
      exact hold (h.drawn rid' j' hj' hdraw')

omit hfresh in
theorem KeyLife.unique_step (hrow : H.EverStored table w₀ (as ++ [a]) k row)
    (hrow' : H.EverStored table w₀ (as ++ [a]) k row') : row = row' := by
  rcases hrow.of_concat hr with hbefore | hnow
  · rcases hrow'.of_concat hr with hbefore' | hnow'
    · exact h.unique row row' hbefore hbefore'
    · obtain ⟨-, rid, j, hj, hdraw, -⟩ := KeyLife.stores hH hs hnow'
      exact absurd hbefore (h.waiting rid j row hj hdraw)
  · obtain ⟨hstored, rid, j, hj, hdraw, -⟩ := KeyLife.stores hH hs hnow
    rcases hrow'.of_concat hr with hbefore' | hnow'
    · exact absurd hbefore' (h.waiting rid j row' hj hdraw)
    · obtain ⟨hstored', -⟩ := KeyLife.stores hH hs hnow'
      rw [hstored] at hstored'
      exact Option.some.inj hstored'

/-- The step lemma. -/
theorem KeyLife.step : KeyLife H table draw w₀ k (as ++ [a]) t where
  drawn rid j hj hdraw := by
    rw [drawnKeys_append, List.mem_append]
    rcases KeyLife.holder hH hs hfresh hj hdraw with ⟨j₀, hj₀, hdraw₀⟩ | ⟨-, hnew, -⟩
    · exact .inl (h.drawn rid j₀ hj₀ hdraw₀)
    · exact .inr hnew
  single _ _ _ _ := h.single_step hH hs hfresh
  waiting _ _ _ := h.waiting_step hH hr hs hfresh
  stored row hrow := by
    rw [drawnKeys_append, List.mem_append]
    rcases hrow.of_concat hr with hbefore | hnow
    · exact (h.stored row hbefore).imp_left .inl
    · obtain ⟨-, rid, j, hj, hdraw, -⟩ := KeyLife.stores hH hs hnow
      exact .inl (.inl (h.drawn rid j hj hdraw))
  found row hrow := by
    rcases hH.row_step hs hrow with hold | ⟨hfree, -⟩
    · exact (h.found row hold).concat hr
    · exact .inr ((Run.occurs_concat hr).mpr (.inr ⟨hfree, t, hs, hrow⟩))
  unique _ _ := h.unique_step hH hr hs

end Step

theorem keyLife_run (hH : H.DrawsKeys table draw) (hr : Run H.step anyStep (Sys.idle w₀) as s)
    (hfresh : FreshDraws table draw w₀ as) (k : κ) : KeyLife H table draw w₀ k as s := by
  refine hr.history_invariant
    (fun as s => FreshDraws table draw w₀ as → KeyLife H table draw w₀ k as s)
    (fun _ => keyLife_idle w₀ k) ?_ hfresh
  intro as s a t hr ih _ hs hfresh
  exact KeyLife.step hH (ih hfresh.of_append) hr hs hfresh

/-- A row that has left the table does not come back. -/
theorem stays_gone (hH : H.DrawsKeys table draw) (hr : Run H.step anyStep (Sys.idle w₀) as s)
    (h : H.EverStored table w₀ as k row) (hgone : (table s.world).lookup k = none)
    (hr' : Run H.step anyStep s bs t) (hfresh : FreshDraws table draw w₀ (as ++ bs)) :
    (table t.world).lookup k = none := by
  induction hr' with
  | nil => exact hgone
  | @snoc bs t u b hrun _ hs ih =>
    rw [← List.append_assoc] at hfresh
    have hfree := ih hfresh.of_append
    have hall := hr.append hrun
    by_contra hback
    obtain ⟨row', hrow'⟩ := Option.ne_none_iff_exists'.mp hback
    rcases hH.row_step hs hrow' with hold | ⟨-, rid, j, hj, hdraw, -⟩
    · rw [hfree] at hold; cases hold
    · exact (keyLife_run hH hall hfresh.of_append k).waiting rid j row hj hdraw (h.append hall)

end FreeBox.Lib.Handlers
