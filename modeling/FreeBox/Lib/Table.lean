import Mathlib.Data.List.AList
import Mathlib.Data.List.Sort

/-!
# Keyed tables

A table with a primary key is Mathlib's association list `AList`: at most one
row for each key. This file adds the verbs of SQL that `AList` lacks
(`INSERT` that fails on a taken key, `UPDATE` of one row, `DELETE … WHERE`,
`SELECT … WHERE`, `COUNT(*) … WHERE`) and `retain` of a hash map, and says what each
does to `lookup` and to the count.

Results:
* `insertNew_eq_some`, `lookup_modify`, `lookup_deleteWhere_eq_some`, `lookup_retain`:
  the rows after a statement.
* `mem_selectWhere`, `firstWhere_eq_none`: the rows a query returns.
* `countWhere_insert_new`, `countWhere_insert_old`, `countWhere_erase`,
  `countWhere_modify`: the count after one row has changed.
* `two_le_countWhere`, `countWhere_deleteWhere_le`, `countWhere_deleteWhere_lt`:
  bounds on a count.
* `orderBy_eq_of_sorted`, `orderBy_congr`, `orderBy_map`: two tables with the same selected
  rows give the same sorted result.
* `SameRows.filter_eq`, `sameRows_insert`, `sameRows_erase`: tables that agree on the rows
  that satisfy a condition.
-/

namespace FreeBox.Lib

/-- A table whose rows `ρ` have a primary key in `κ`. -/
abbrev Table (κ : Type*) (ρ : Type*) := AList (fun _ : κ => ρ)

/-- The text has U+0000, which no value of the type `TEXT` has. A statement with such a
    parameter fails. -/
def hasNul (text : String) : Bool := text.toList.contains (Char.ofNat 0)

namespace Table

variable {κ ρ : Type*} [DecidableEq κ]

/-- `INSERT`: `none` when the key is taken (unique violation). -/
def insertNew (k : κ) (r : ρ) (t : Table κ ρ) : Option (Table κ ρ) :=
  if k ∈ t then none else some (t.insert k r)

/-- `UPDATE … SET … WHERE key = k`. -/
def modify (k : κ) (f : ρ → ρ) (t : Table κ ρ) : Table κ ρ :=
  match t.lookup k with
  | none => t
  | some r => t.insert k (f r)

/-- `DELETE … WHERE p`. -/
def deleteWhere (p : κ → ρ → Bool) (t : Table κ ρ) : Table κ ρ :=
  ⟨t.entries.filter fun e => !p e.1 e.2, .sublist List.filter_sublist t.nodupKeys⟩

/-- Each row is replaced by `f` of it, or dropped (`HashMap::retain`). -/
def retain (f : ρ → Option ρ) (t : Table κ ρ) : Table κ ρ :=
  ⟨t.entries.filterMap fun e => (f e.2).map fun r => ⟨e.1, r⟩, by
    have hp := List.nodupKeys_iff_pairwise.mp t.nodupKeys
    refine List.nodupKeys_iff_pairwise.mpr (hp.filterMap _ fun e e' hne b hb b' hb' => ?_)
    obtain ⟨r, -, rfl⟩ := Option.map_eq_some_iff.mp hb
    obtain ⟨r', -, rfl⟩ := Option.map_eq_some_iff.mp hb'
    exact hne⟩

/-- `SELECT … WHERE p`, the rows with their keys. -/
def selectWhere (p : κ → ρ → Bool) (t : Table κ ρ) : List (κ × ρ) :=
  (t.entries.filter fun e => p e.1 e.2).map fun e => (e.1, e.2)

/-- `SELECT … WHERE p` of at most one row. -/
def firstWhere (p : κ → ρ → Bool) (t : Table κ ρ) : Option (κ × ρ) := (selectWhere p t).head?

/-- `SELECT COUNT(*) … WHERE p`. -/
def countWhere (p : κ → ρ → Bool) (t : Table κ ρ) : ℕ :=
  t.entries.countP fun e => p e.1 e.2

variable {p : κ → ρ → Bool} {t t' : Table κ ρ} {k k' : κ} {r r' : ρ}

theorem mem_iff_lookup : k ∈ t ↔ ∃ r, t.lookup k = some r := by
  rw [← AList.lookup_isSome, Option.isSome_iff_exists]

theorem lookup_eq_some_iff : t.lookup k = some r ↔ ⟨k, r⟩ ∈ t.entries :=
  AList.mem_lookup_iff

theorem lookup_insert_eq (k k' : κ) (r : ρ) (t : Table κ ρ) :
    (t.insert k r).lookup k' = if k' = k then some r else t.lookup k' := by
  split_ifs with h
  · subst h; exact AList.lookup_insert t
  · exact AList.lookup_insert_ne h

theorem lookup_erase_eq (k k' : κ) (t : Table κ ρ) :
    (t.erase k).lookup k' = if k' = k then none else t.lookup k' := by
  split_ifs with h
  · subst h; exact AList.lookup_erase _ t
  · exact AList.lookup_erase_ne h

theorem erase_insert (k : κ) (r : ρ) (t : Table κ ρ) : (t.insert k r).erase k = t.erase k := by
  apply AList.ext
  show List.kerase k (List.kinsert k r t.entries) = List.kerase k t.entries
  simp [List.kinsert_def]

/-! ## Statements -/

theorem insertNew_eq_some (h : insertNew k r t = some t') :
    t.lookup k = none ∧ t' = t.insert k r := by
  unfold insertNew at h
  split_ifs at h with hk
  exact ⟨AList.lookup_eq_none.mpr hk, (Option.some.inj h).symm⟩

theorem lookup_modify (k k' : κ) (f : ρ → ρ) (t : Table κ ρ) :
    (modify k f t).lookup k' = if k' = k then (t.lookup k).map f else t.lookup k' := by
  unfold modify
  cases h : t.lookup k with
  | none =>
    split_ifs with hk
    · rw [hk, h]; rfl
    · rfl
  | some r => exact lookup_insert_eq k k' (f r) t

theorem lookup_deleteWhere_eq_some :
    (deleteWhere p t).lookup k = some r ↔ t.lookup k = some r ∧ p k r = false := by
  rw [lookup_eq_some_iff, lookup_eq_some_iff, deleteWhere]
  simp

theorem lookup_deleteWhere (p : κ → ρ → Bool) (t : Table κ ρ) (k : κ) :
    (deleteWhere p t).lookup k = (t.lookup k).filter fun r => !p k r := by
  ext r
  rw [lookup_deleteWhere_eq_some, Option.filter_eq_some_iff, Bool.not_eq_true']

omit [DecidableEq κ] in
theorem deleteWhere_deleteWhere (p q : κ → ρ → Bool) (t : Table κ ρ) :
    deleteWhere p (deleteWhere q t) = deleteWhere (fun k r => q k r || p k r) t := by
  apply AList.ext
  show (t.entries.filter _).filter _ = t.entries.filter _
  rw [List.filter_filter]
  refine List.filter_congr fun e _ => ?_
  rw [Bool.not_or, Bool.and_comm]

omit [DecidableEq κ] in
theorem deleteWhere_congr {p q : κ → ρ → Bool} {t : Table κ ρ}
    (h : ∀ e ∈ t.entries, p e.1 e.2 = q e.1 e.2) : deleteWhere p t = deleteWhere q t := by
  apply AList.ext
  show t.entries.filter _ = t.entries.filter _
  exact List.filter_congr fun e he => by rw [h e he]

theorem kerase_eq_filter {l : List (Sigma fun _ : κ => ρ)} (h : l.NodupKeys) (k : κ) :
    l.kerase k = l.filter fun e => !decide (e.1 = k) := by
  induction l with
  | nil => rfl
  | cons e l ih =>
    obtain ⟨hnew, hrest⟩ := List.nodupKeys_cons.mp h
    by_cases hk : k = e.1
    · have hkept : l.filter (fun e => !decide (e.1 = k)) = l := by
        refine List.filter_eq_self.mpr fun e' he' => ?_
        have hne : e'.1 ≠ k := fun heq => hnew (hk ▸ heq ▸ List.mem_keys_of_mem he')
        simp [hne]
      rw [List.kerase_cons_eq hk, List.filter_cons_of_neg (by simp [hk]), hkept]
    · rw [List.kerase_cons_ne hk, ih hrest, List.filter_cons_of_pos]
      simpa using Ne.symm hk

theorem erase_eq_deleteWhere (k : κ) (t : Table κ ρ) :
    t.erase k = deleteWhere (fun k' _ => k' = k) t :=
  AList.ext (kerase_eq_filter t.nodupKeys k)

theorem lookup_retain (f : ρ → Option ρ) (t : Table κ ρ) (k : κ) :
    (retain f t).lookup k = (t.lookup k).bind f := by
  ext r
  rw [lookup_eq_some_iff, Option.bind_eq_some_iff, retain]
  simp only [List.mem_filterMap, Option.map_eq_some_iff, Sigma.mk.injEq]
  constructor
  · rintro ⟨⟨k', r'⟩, hmem, r'', hr, rfl, he⟩
    cases he
    exact ⟨r', lookup_eq_some_iff.mpr hmem, hr⟩
  · rintro ⟨r', hmem, hr⟩
    exact ⟨⟨k, r'⟩, lookup_eq_some_iff.mp hmem, r, hr, rfl, HEq.rfl⟩

theorem mem_selectWhere : (k, r) ∈ selectWhere p t ↔ t.lookup k = some r ∧ p k r = true := by
  rw [lookup_eq_some_iff, selectWhere]
  simp

theorem firstWhere_eq_some (h : firstWhere p t = some (k, r)) :
    t.lookup k = some r ∧ p k r = true :=
  mem_selectWhere.mp (List.mem_of_head? h)

theorem firstWhere_eq_none :
    firstWhere p t = none ↔ ∀ k r, t.lookup k = some r → p k r = false := by
  rw [firstWhere, List.head?_eq_none_iff, List.eq_nil_iff_forall_not_mem]
  constructor
  · intro h k r hr
    by_contra hp
    exact h (k, r) (mem_selectWhere.mpr ⟨hr, (Bool.not_eq_false _).mp hp⟩)
  · rintro h ⟨k, r⟩ hm
    obtain ⟨hr, hp⟩ := mem_selectWhere.mp hm
    rw [h k r hr] at hp
    cases hp

/-! ## Counting -/

theorem countWhere_pos : 0 < countWhere p t ↔ ∃ k r, t.lookup k = some r ∧ p k r = true := by
  simp only [countWhere, List.countP_pos_iff, lookup_eq_some_iff]
  exact ⟨fun ⟨e, he, hp⟩ => ⟨e.1, e.2, he, hp⟩, fun ⟨k, r, he, hp⟩ => ⟨⟨k, r⟩, he, hp⟩⟩

theorem countWhere_insert :
    countWhere p (t.insert k r) = countWhere p (t.erase k) + if p k r then 1 else 0 := by
  rw [countWhere, AList.entries_insert, List.countP_cons]
  rfl

theorem erase_of_lookup_none (h : t.lookup k = none) : t.erase k = t :=
  AList.ext (List.kerase_of_notMem_keys (AList.lookup_eq_none.mp h))

theorem countWhere_insert_new (h : t.lookup k = none) :
    countWhere p (t.insert k r) = countWhere p t + if p k r then 1 else 0 := by
  rw [countWhere_insert, erase_of_lookup_none h]

/-- A row that is removed takes its own share of the count with it. -/
theorem countWhere_erase (h : t.lookup k = some r) :
    countWhere p t = countWhere p (t.erase k) + if p k r then 1 else 0 := by
  obtain ⟨b, l₁, l₂, hl₁, ht, he⟩ :=
    List.exists_of_kerase (AList.mem_keys.mp (mem_iff_lookup.mpr ⟨r, h⟩))
  -- the removed entry is the row found under `k`
  have hb : b = r := by
    have : t.lookup k = some b := lookup_eq_some_iff.mpr (by rw [ht]; simp)
    rw [h] at this
    exact (Option.some.inj this).symm
  subst hb
  have herase : (t.erase k).entries = l₁ ++ l₂ := he
  rw [countWhere, countWhere, herase, ht, List.countP_append, List.countP_cons, List.countP_append]
  exact (Nat.add_assoc _ _ _).symm

theorem two_le_countWhere (h : t.lookup k = some r) (h' : t.lookup k' = some r') (hne : k' ≠ k)
    (hp : p k r = true) (hp' : p k' r' = true) : 2 ≤ countWhere p t := by
  have herase : (t.erase k).lookup k' = some r' := by rw [lookup_erase_eq, if_neg hne, h']
  have hpos : 0 < countWhere p (t.erase k) := countWhere_pos.mpr ⟨k', r', herase, hp'⟩
  rw [countWhere_erase h, if_pos hp]
  omega

/-- There is one row under a key that is taken. -/
theorem countWhere_key (h : t.lookup k = some r) :
    countWhere (fun k' _ => decide (k' = k)) t = 1 := by
  have hrest : countWhere (fun k' _ => decide (k' = k)) (t.erase k) = 0 := by
    by_contra hne
    obtain ⟨k', r', hr', hk'⟩ := countWhere_pos.mp (Nat.pos_of_ne_zero hne)
    rw [of_decide_eq_true hk', AList.lookup_erase] at hr'
    cases hr'
  rw [countWhere_erase h, hrest, if_pos (decide_eq_true rfl)]

theorem countWhere_key_le (k : κ) (t : Table κ ρ) :
    countWhere (fun k' _ => decide (k' = k)) t ≤ 1 := by
  cases h : t.lookup k with
  | some r => exact (countWhere_key h).le
  | none =>
    by_contra hmany
    obtain ⟨k', r, hr, hk⟩ := countWhere_pos.mp (Nat.zero_lt_of_lt (Nat.lt_of_not_le hmany))
    rw [of_decide_eq_true hk, h] at hr
    cases hr

/-- A row that is replaced exchanges its share of the count. -/
theorem countWhere_insert_old (h : t.lookup k = some r) :
    countWhere p (t.insert k r') + (if p k r then 1 else 0) =
      countWhere p t + if p k r' then 1 else 0 := by
  rw [countWhere_insert, countWhere_erase (p := p) h]
  omega

/-- An update that the condition does not see leaves the count as it is. -/
theorem countWhere_modify {f : ρ → ρ} (h : ∀ r, p k (f r) = p k r) :
    countWhere p (modify k f t) = countWhere p t := by
  unfold modify
  cases hk : t.lookup k with
  | none => rfl
  | some r =>
    have hcount : countWhere p (t.insert k (f r)) + (if p k r then 1 else 0) =
        countWhere p t + if p k (f r) then 1 else 0 := countWhere_insert_old hk
    rw [h r] at hcount
    exact Nat.add_right_cancel hcount

omit [DecidableEq κ] in
theorem countWhere_deleteWhere_le (p q : κ → ρ → Bool) (t : Table κ ρ) :
    countWhere p (deleteWhere q t) ≤ countWhere p t :=
  List.filter_sublist.countP_le

theorem countWhere_deleteWhere_lt {q : κ → ρ → Bool} (h : t.lookup k = some r) (hp : p k r = true)
    (hq : q k r = true) : countWhere p (deleteWhere q t) < countWhere p t := by
  have hsplit := List.countP_eq_countP_filter_add t.entries (fun e => p e.1 e.2)
    (fun e => q e.1 e.2)
  have hpos : 0 < (t.entries.filter fun e => q e.1 e.2).countP fun e => p e.1 e.2 :=
    List.countP_pos_iff.mpr ⟨⟨k, r⟩, List.mem_filter.mpr ⟨lookup_eq_some_iff.mp h, hq⟩, hp⟩
  rw [countWhere, countWhere, hsplit]
  exact Nat.lt_add_of_pos_left hpos

omit [DecidableEq κ] in
theorem countP_selectWhere (f : κ × ρ → Bool) (p : κ → ρ → Bool) (t : Table κ ρ) :
    (selectWhere p t).countP f = countWhere (fun k r => p k r && f (k, r)) t := by
  rw [selectWhere, List.countP_map, List.countP_filter, countWhere]
  refine List.countP_congr fun e _ => ?_
  simp [and_comm]

omit [DecidableEq κ] in
theorem countWhere_congr {q : κ → ρ → Bool} (h : ∀ k r, ⟨k, r⟩ ∈ t.entries → p k r = q k r) :
    countWhere p t = countWhere q t :=
  List.countP_congr fun e he => by rw [h e.1 e.2 he]

/-! ## Sorting -/

/-- `SELECT … WHERE p ORDER BY key`. -/
def orderBy {α : Type*} [LinearOrder α] (key : κ × ρ → α) (p : κ → ρ → Bool) (t : Table κ ρ) :
    List (κ × ρ) :=
  (selectWhere p t).insertionSort fun a b => key a ≤ key b

variable {α : Type*} [LinearOrder α] {key : κ × ρ → α}

theorem mem_orderBy : (k, r) ∈ orderBy key p t ↔ t.lookup k = some r ∧ p k r = true := by
  rw [orderBy, List.mem_insertionSort, mem_selectWhere]

omit [DecidableEq κ] in
theorem length_orderBy (key : κ × ρ → α) (p : κ → ρ → Bool) (t : Table κ ρ) :
    (orderBy key p t).length = countWhere p t := by
  rw [orderBy, List.length_insertionSort, selectWhere, List.length_map, countWhere,
    List.countP_eq_length_filter]

omit [DecidableEq κ] in
theorem nodup_keys_selectWhere (p : κ → ρ → Bool) (t : Table κ ρ) :
    ((selectWhere p t).map Prod.fst).Nodup := by
  rw [selectWhere, List.map_map]
  have hkeys : (t.entries.map Sigma.fst).Nodup := t.nodupKeys
  exact hkeys.sublist (List.filter_sublist.map Sigma.fst)

omit [DecidableEq κ] in
theorem nodup_selectWhere (p : κ → ρ → Bool) (t : Table κ ρ) : (selectWhere p t).Nodup :=
  (nodup_keys_selectWhere p t).of_map

/-- The keys of the selected rows. -/
theorem mem_keys_selectWhere :
    k ∈ (selectWhere p t).map Prod.fst ↔ ∃ r, t.lookup k = some r ∧ p k r = true := by
  rw [List.mem_map]
  constructor
  · intro h
    obtain ⟨⟨k', r⟩, hmem, rfl⟩ := h
    exact ⟨r, mem_selectWhere.mp hmem⟩
  · intro h
    obtain ⟨r, hr⟩ := h
    exact ⟨(k, r), mem_selectWhere.mpr hr, rfl⟩

omit [DecidableEq κ] in
theorem pairwise_orderBy (key : κ × ρ → α) (p : κ → ρ → Bool) (t : Table κ ρ) :
    (orderBy key p t).Pairwise fun a b => key a ≤ key b := by
  have htotal : Std.Total fun a b : κ × ρ => key a ≤ key b := ⟨fun a b => le_total (key a) (key b)⟩
  have htrans : IsTrans (κ × ρ) fun a b => key a ≤ key b := ⟨fun a b c => le_trans⟩
  exact List.pairwise_insertionSort _ _

/-- There is one sorted list of the rows if the sort key tells rows with different primary
    keys apart. -/
theorem orderBy_eq_of_sorted {l : List (κ × ρ)} (hkey : ∀ a b, key a = key b → a.1 = b.1)
    (hperm : l.Perm (selectWhere p t)) (hsorted : l.Pairwise fun a b => key a ≤ key b) :
    orderBy key p t = l := by
  have hperm' : (orderBy key p t).Perm l := (List.perm_insertionSort _ _).trans hperm.symm
  refine hperm'.eq_of_pairwise (fun a b ha hb hab hba => ?_) (pairwise_orderBy key p t) hsorted
  have hk := hkey a b (le_antisymm hab hba)
  have ha' := (mem_orderBy.mp ha).1
  have hb' := (mem_orderBy.mp (hperm'.mem_iff.mpr hb)).1
  rw [hk, hb'] at ha'
  exact Prod.ext hk (Option.some.inj ha').symm

/-- The result depends on the selected rows only, if the sort key tells rows with
    different primary keys apart. -/
theorem orderBy_congr (hkey : ∀ a b, key a = key b → a.1 = b.1)
    (h : ∀ k r, p k r = true → (t.lookup k = some r ↔ t'.lookup k = some r)) :
    orderBy key p t = orderBy key p t' := by
  have hperm : (selectWhere p t').Perm (selectWhere p t) := by
    refine (List.perm_ext_iff_of_nodup (nodup_selectWhere p t') (nodup_selectWhere p t)).mpr ?_
    rintro ⟨k, r⟩
    rw [mem_selectWhere, mem_selectWhere]
    exact and_congr_left fun hp => (h k r hp).symm
  exact orderBy_eq_of_sorted hkey ((List.perm_insertionSort _ _).trans hperm)
    (pairwise_orderBy key p t')

/-- The rows of `t'` are those of `t` in another form. -/
theorem orderBy_map {ρ' : Type*} {f : ρ → ρ'} {t' : Table κ ρ'} {key : κ × ρ' → α}
    {p : κ → ρ' → Bool} (hkey : ∀ a b, key a = key b → a.1 = b.1)
    (h : ∀ k, t'.lookup k = (t.lookup k).map f) :
    orderBy key p t' =
      (orderBy (fun e => key (e.1, f e.2)) (fun k r => p k (f r)) t).map
        fun e => (e.1, f e.2) := by
  refine orderBy_eq_of_sorted hkey ?_ ?_
  · have hkeys : ((orderBy (fun e => key (e.1, f e.2)) (fun k r => p k (f r)) t).map
        Prod.fst).Nodup :=
      ((List.perm_insertionSort _ _).map Prod.fst).nodup_iff.mpr (nodup_keys_selectWhere _ t)
    refine (List.perm_ext_iff_of_nodup ?_ (nodup_selectWhere p t')).mpr ?_
    · refine List.Nodup.of_map Prod.fst ?_
      rw [List.map_map]
      exact hkeys
    · rintro ⟨k, r'⟩
      rw [mem_selectWhere, h, Option.map_eq_some_iff, List.mem_map]
      constructor
      · rintro ⟨⟨k', r⟩, hmem, heq⟩
        cases heq
        obtain ⟨hr, hp⟩ := mem_orderBy.mp hmem
        exact ⟨⟨r, hr, rfl⟩, hp⟩
      · rintro ⟨⟨r, hr, rfl⟩, hp⟩
        exact ⟨(k, r), mem_orderBy.mpr ⟨hr, hp⟩, rfl⟩
  · rw [List.pairwise_map]
    exact pairwise_orderBy _ _ t

/-! ## The rows that satisfy a condition -/

/-- The rows that satisfy `q` are the same in both tables. -/
def SameRows (q : ρ → Bool) (t t' : Table κ ρ) : Prop :=
  ∀ k, (t.lookup k).filter q = (t'.lookup k).filter q

variable {q q' : ρ → Bool}

theorem SameRows.refl (q : ρ → Bool) (t : Table κ ρ) : SameRows q t t := fun _ => rfl

theorem SameRows.symm (h : SameRows q t t') : SameRows q t' t := fun k => (h k).symm

theorem SameRows.lookup (h : SameRows q t t') (hr : t.lookup k = some r) (hq : q r = true) :
    t'.lookup k = some r := by
  have hfilter : (t'.lookup k).filter q = some r := by
    rw [← h k]; exact Option.filter_eq_some_iff.mpr ⟨hr, hq⟩
  exact (Option.filter_eq_some_iff.mp hfilter).1

/-- A query that selects among these rows returns the same. -/
theorem SameRows.filter_eq (h : SameRows q t t') (hq : ∀ r, q' r = true → q r = true) (k : κ) :
    (t.lookup k).filter q' = (t'.lookup k).filter q' := by
  ext r
  rw [Option.filter_eq_some_iff, Option.filter_eq_some_iff]
  exact and_congr_left fun hr =>
    ⟨fun hk => h.lookup hk (hq r hr), fun hk => h.symm.lookup hk (hq r hr)⟩

theorem SameRows.orderBy_eq (h : SameRows q t t') (hkey : ∀ a b, key a = key b → a.1 = b.1)
    (hp : ∀ k r, p k r = true → q r = true) : orderBy key p t = orderBy key p t' :=
  orderBy_congr hkey fun k r hr =>
    ⟨fun hk => h.lookup hk (hp k r hr), fun hk => h.symm.lookup hk (hp k r hr)⟩

/-- A row is replaced, or added, and none of these rows is involved. -/
theorem sameRows_insert (hold : ∀ r, t.lookup k = some r → q r = false) (hnew : q r' = false) :
    SameRows q t (t.insert k r') := by
  intro k'
  rw [lookup_insert_eq]
  split_ifs with hk
  · subst hk
    rw [Option.filter_some, hnew, Option.filter_eq_none_iff.mpr fun r hr => by simp [hold r hr]]
    rfl
  · rfl

theorem sameRows_modify {f : ρ → ρ} (hold : ∀ r, t.lookup k = some r → q r = false)
    (hf : ∀ r, q (f r) = q r) : SameRows q t (modify k f t) := by
  unfold modify
  cases hk : t.lookup k with
  | none => exact .refl q t
  | some r => exact sameRows_insert hold ((hf r).trans (hold r hk))

theorem sameRows_erase (hold : ∀ r, t.lookup k = some r → q r = false) :
    SameRows q t (t.erase k) := by
  intro k'
  rw [lookup_erase_eq]
  split_ifs with hk
  · subst hk
    rw [Option.filter_none, Option.filter_eq_none_iff]
    exact fun r hr => by simp [hold r hr]
  · rfl

theorem sameRows_deleteWhere (h : ∀ k r, q r = true → p k r = false) :
    SameRows q t (deleteWhere p t) := by
  intro k
  ext r
  rw [Option.filter_eq_some_iff, Option.filter_eq_some_iff, lookup_deleteWhere_eq_some]
  exact and_congr_left fun hr => (and_iff_left (h k r hr)).symm

end Table

end FreeBox.Lib
