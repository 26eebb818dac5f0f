import FreeBox.Crypto.BundleJson
import FreeBox.Server.Handshake

/-!
# The key server over JSON

`register`, `get_bundle` and `replenish_one_time` with the JSON values that they are sent, that
the column `prekey_bundles.bundle` of type JSONB holds, and that they answer. The machine of
`KeyServer` stores bundles instead.

Results:
* `represents_handle`: a request takes related states to related states.
* `json_server_refines`: both servers give the same answers, and what `get_bundle` answers is a
  bundle with a valid identity.
-/

namespace FreeBox.Server.KeyServer

open FreeBox.Lib FreeBox.Crypto

/-! ## The server -/

/-- `auth::RegisterRequest`. -/
structure JsonRegisterRequest where
  username : String
  email : String
  passwordHash : String
  argon2Salt : String
  prekeyBundle : JsonValue

/-- What the handler reads of the request; `shapeError` is the text of an error of
    `serde_json::from_value`. -/
def JsonRegisterRequest.read (shapeError : JsonValue → String) (r : JsonRegisterRequest) :
    RegisterRequest where
  username := r.username
  email := r.email
  passwordHash := r.passwordHash
  argon2Salt := r.argon2Salt
  bundleSize := r.prekeyBundle.size
  prekeyBundle :=
    match PrekeyBundle.fromValue r.prekeyBundle with
    | none => .error (shapeError r.prekeyBundle)
    | some bundle => .ok bundle

/-- A row of `prekey_bundles` without its key `user_id`. -/
structure JsonRow where
  bundle : JsonValue
  updatedAt : Timestamp

/-- The database and the clock. -/
structure JsonWorld extends OAuth.World where
  bundles : Table Uuid JsonRow

inductive JsonResponse
  | created (tokens : OAuth.AuthResponse)
  | bundle (v : JsonValue)
  | noContent
  | error (e : AppError)

variable (st : AppState) (shapeError : JsonValue → String)

/-- The transaction of `register`. -/
def insertJsonAccount (v : JsonWorld) (userId : Uuid) (row : UserRow) (bundle : JsonValue) :
    Except AppError JsonWorld :=
  match v.db.insertUser userId row with
  | none => .error (.conflict "username or email already taken")
  | some db =>
    match Table.insertNew userId { bundle, updatedAt := v.now } v.bundles with
    | none => .error .internal
    | some bundles => .ok { v with db, bundles }

/-- `auth::register`. -/
def registerJson (v : JsonWorld) (dbFails : Bool) (r : JsonRegisterRequest)
    (draws : RegisterDraws) : JsonWorld × JsonResponse :=
  match checkRegister st (r.read shapeError) with
  | .error e => (v, .error e)
  | .ok bundle =>
    match st.hashPasswordServer r.passwordHash draws.salt with
    | .error e => (v, .error e)
    | .ok serverHash =>
      if dbFails then (v, .error .internal) else
      match insertJsonAccount v draws.userId
        { username := r.username
          email := r.email
          passwordHash := some serverHash
          argon2Salt := some r.argon2Salt
          createdAt := v.now
          deletedAt := none } bundle.toValue with
      | .error e => (v, .error e)
      | .ok v =>
        match OAuth.issueTokenPair st.toAppState v.toWorld draws.userId r.username draws.token with
        | .error e => (v, .error e)
        | .ok (oauth, tokens) => ({ v with toWorld := oauth }, .created tokens)

/-- `keys::get_bundle`. -/
def getBundleJson (v : JsonWorld) (dbFails : Bool) (userId : Uuid) : JsonWorld × JsonResponse :=
  if dbFails then (v, .error .internal) else
  match v.bundles.lookup userId with
  | none => (v, .error (.notFound ("no prekey bundle for user " ++ toString userId)))
  | some row => (v, .bundle row.bundle)

/-- `keys::replenish_one_time`. A column that would become `NULL` fails. -/
def replenishOneTimeJson (v : JsonWorld) (dbFails : Bool) (claims : Claims)
    (newKeys : List OneTimePrekey) : JsonWorld × JsonResponse :=
  match validateOneTimePrekeyBatch newKeys with
  | .error e => (v, .error e)
  | .ok () =>
    if dbFails then (v, .error .internal) else
    match v.bundles.lookup claims.sub with
    | none => (v, .noContent)
    | some row =>
      match JsonValue.appendMember "one_time_prekeys" (.ofList OneTimePrekey.toValue newKeys)
        row.bundle with
      | none => (v, .error .internal)
      | some bundle =>
        ({ v with bundles := v.bundles.insert claims.sub { bundle, updatedAt := v.now } },
          .noContent)

inductive JsonRequest
  | register (r : JsonRegisterRequest) (draws : RegisterDraws)
  | getBundle (claims : Claims) (userId : Uuid)
  | replenishOneTime (claims : Claims) (newKeys : List OneTimePrekey)

/-- A request, the time at which it runs, and whether the database fails then. -/
structure JsonCall where
  request : JsonRequest
  now : Timestamp
  dbFails : Bool

/-- One request. -/
def handleJson (v : JsonWorld) (c : JsonCall) : JsonWorld × JsonResponse :=
  let v := { v with now := c.now }
  match c.request with
  | .register r draws => registerJson st shapeError v c.dbFails r draws
  | .getBundle _ userId => getBundleJson v c.dbFails userId
  | .replenishOneTime claims newKeys => replenishOneTimeJson v c.dbFails claims newKeys

/-! ## The refinement -/

/-- The call of the typed server. -/
def JsonCall.read (c : JsonCall) : Call where
  request :=
    match c.request with
    | .register r draws => .register (r.read shapeError) draws
    | .getBundle claims userId => .getBundle claims userId
    | .replenishOneTime claims newKeys => .replenishOneTime claims newKeys
  now := c.now
  dbFails := c.dbFails

def BundleRow.toJson (row : BundleRow) : JsonRow := ⟨row.bundle.toValue, row.updatedAt⟩

def Response.toJson : Response → JsonResponse
  | .created tokens => .created tokens
  | .bundle b => .bundle b.toValue
  | .noContent => .noContent
  | .error e => .error e

/-- Every stored value is that of the stored bundle. -/
def SameBundles (a : Table Uuid JsonRow) (b : Table Uuid BundleRow) : Prop :=
  ∀ u, a.lookup u = (b.lookup u).map BundleRow.toJson

structure Represents (v : JsonWorld) (w : World) : Prop where
  rest : v.toWorld = w.toWorld
  bundles : SameBundles v.bundles w.bundles

variable {st shapeError} {v : JsonWorld} {w : World} {a : Table Uuid JsonRow}
  {b : Table Uuid BundleRow}

theorem SameBundles.insert (h : SameBundles a b) (u : Uuid) (row : BundleRow) :
    SameBundles (a.insert u row.toJson) (b.insert u row) := by
  intro u'
  rw [Table.lookup_insert_eq, Table.lookup_insert_eq]
  split_ifs
  · rfl
  · exact h u'

/-- A key is taken in both tables or in none. -/
theorem SameBundles.insertNew (h : SameBundles a b) (u : Uuid) (row : BundleRow) :
    (Table.insertNew u row.toJson a = none ∧ Table.insertNew u row b = none) ∨
    ∃ a' b', Table.insertNew u row.toJson a = some a' ∧ Table.insertNew u row b = some b' ∧
      SameBundles a' b' := by
  have hmem : u ∈ a ↔ u ∈ b := by
    rw [← AList.lookup_isSome, ← AList.lookup_isSome, h u, Option.isSome_map]
  unfold Table.insertNew
  by_cases hu : u ∈ b
  · exact .inl ⟨if_pos (hmem.mpr hu), if_pos hu⟩
  · exact .inr ⟨_, _, if_neg (hmem.not.mpr hu), if_neg hu, h.insert u row⟩

theorem represents_insertAccount (h : Represents v w) (u : Uuid) (row : UserRow)
    (bundle : PrekeyBundle) :
    (∃ e, insertJsonAccount v u row bundle.toValue = .error e ∧
      insertAccount w u row bundle = .error e) ∨
    ∃ v' w', insertJsonAccount v u row bundle.toValue = .ok v' ∧
      insertAccount w u row bundle = .ok w' ∧ Represents v' w' := by
  obtain ⟨rest, a⟩ := v
  obtain ⟨rest', b⟩ := w
  obtain rfl : rest = rest' := h.rest
  unfold insertJsonAccount insertAccount
  dsimp only
  cases rest.db.insertUser u row with
  | none => exact .inl ⟨_, rfl, rfl⟩
  | some db =>
    dsimp only
    rcases h.bundles.insertNew u { bundle, updatedAt := rest.now } with
      ⟨ha, hb⟩ | ⟨a', b', ha, hb, hsame⟩
    · dsimp only [BundleRow.toJson] at ha hb
      exact .inl ⟨.internal, by rw [ha], by rw [hb]⟩
    · dsimp only [BundleRow.toJson] at ha hb
      exact .inr ⟨_, _, by rw [ha], by rw [hb], ⟨rfl, hsame⟩⟩

theorem represents_register (h : Represents v w) (dbFails : Bool) (r : JsonRegisterRequest)
    (draws : RegisterDraws) :
    Represents (registerJson st shapeError v dbFails r draws).1
        (register st w dbFails (r.read shapeError) draws).1 ∧
      (registerJson st shapeError v dbFails r draws).2 =
        (register st w dbFails (r.read shapeError) draws).2.toJson := by
  unfold registerJson register
  cases checkRegister st (r.read shapeError) with
  | error e => exact ⟨h, rfl⟩
  | ok bundle =>
    dsimp only [JsonRegisterRequest.read]
    cases st.hashPasswordServer r.passwordHash draws.salt with
    | error e => exact ⟨h, rfl⟩
    | ok serverHash =>
      dsimp only
      split_ifs
      · exact ⟨h, rfl⟩
      · have hnow : v.now = w.now := congrArg OAuth.World.now h.rest
        rw [hnow]
        generalize hrow : UserRow.mk r.username r.email (some serverHash) (some r.argon2Salt)
          w.now none = row
        rcases represents_insertAccount h draws.userId row bundle with
          ⟨e, hv, hw⟩ | ⟨v', w', hv, hw, h'⟩
        · rw [hv, hw]
          exact ⟨h, rfl⟩
        · rw [hv, hw]
          dsimp only
          rw [h'.rest]
          cases OAuth.issueTokenPair st.toAppState w'.toWorld draws.userId r.username
            draws.token with
          | error e => exact ⟨h', rfl⟩
          | ok issued => exact ⟨⟨rfl, h'.bundles⟩, rfl⟩

theorem represents_getBundle (h : Represents v w) (dbFails : Bool) (u : Uuid) :
    Represents (getBundleJson v dbFails u).1 (getBundle w dbFails u).1 ∧
      (getBundleJson v dbFails u).2 = (getBundle w dbFails u).2.toJson := by
  unfold getBundleJson getBundle
  split_ifs
  · exact ⟨h, rfl⟩
  · rw [h.bundles u]
    cases w.bundles.lookup u with
    | none => exact ⟨h, rfl⟩
    | some row => exact ⟨h, rfl⟩

theorem represents_replenishOneTime (h : Represents v w) (dbFails : Bool) (claims : Claims)
    (newKeys : List OneTimePrekey) :
    Represents (replenishOneTimeJson v dbFails claims newKeys).1
        (replenishOneTime w dbFails claims newKeys).1 ∧
      (replenishOneTimeJson v dbFails claims newKeys).2 =
        (replenishOneTime w dbFails claims newKeys).2.toJson := by
  unfold replenishOneTimeJson replenishOneTime
  cases validateOneTimePrekeyBatch newKeys with
  | error e => exact ⟨h, rfl⟩
  | ok _ =>
    dsimp only
    split_ifs
    · exact ⟨h, rfl⟩
    · rw [h.bundles claims.sub, Table.modify]
      cases w.bundles.lookup claims.sub with
      | none => exact ⟨⟨h.rest, h.bundles⟩, rfl⟩
      | some row =>
        have happend := row.bundle.appendMember_toValue newKeys
        have hnow : v.now = w.now := congrArg OAuth.World.now h.rest
        simp only [Option.map_some, BundleRow.toJson, happend, hnow]
        exact ⟨⟨h.rest, h.bundles.insert claims.sub (row.append newKeys w.now)⟩, rfl⟩

/-- A request takes related states to related states, and is answered alike. -/
theorem represents_handle (h : Represents v w) (c : JsonCall) :
    Represents (handleJson st shapeError v c).1 (handle st w (c.read shapeError)).1 ∧
      (handleJson st shapeError v c).2 = (handle st w (c.read shapeError)).2.toJson := by
  have hnow : Represents { v with now := c.now } { w with now := c.now } :=
    ⟨congrArg (fun rest => { rest with now := c.now }) h.rest, h.bundles⟩
  obtain ⟨request, now, dbFails⟩ := c
  cases request with
  | register r draws => exact represents_register hnow dbFails r draws
  | getBundle claims u => exact represents_getBundle hnow dbFails u
  | replenishOneTime claims newKeys =>
    exact represents_replenishOneTime hnow dbFails claims newKeys

/-! ## What peers are given -/

/-- The bundle is one that `u` has registered, with more one-time prekeys. -/
def FromRegistration (st : AppState) (calls : List Call) (u : Uuid) (bundle : PrekeyBundle) :
    Prop :=
  ∃ c ∈ calls, ∃ r draws registered more, c.request = .register r draws ∧ draws.userId = u ∧
    r.prekeyBundle = .ok registered ∧ registered.validatePublic st.ed25519 = .ok () ∧
    bundle = { registered with oneTimePrekeys := registered.oneTimePrekeys ++ more } ∧
    ∀ key ∈ more, key.publicKey ≠ zeroKey

theorem FromRegistration.mono {calls calls' : List Call} {u : Uuid} {bundle : PrekeyBundle}
    (h : FromRegistration st calls u bundle) (hsub : calls ⊆ calls') :
    FromRegistration st calls' u bundle := by
  obtain ⟨c, hc, hrest⟩ := h
  exact ⟨c, hsub hc, hrest⟩

theorem FromRegistration.append {calls : List Call} {u : Uuid} {bundle : PrekeyBundle}
    (h : FromRegistration st calls u bundle) {keys : List OneTimePrekey}
    (hkeys : ∀ key ∈ keys, key.publicKey ≠ zeroKey) :
    FromRegistration st calls u
      { bundle with oneTimePrekeys := bundle.oneTimePrekeys ++ keys } := by
  obtain ⟨c, hc, r, draws, registered, more, hreq, hu, hr, hvalid, rfl, hmore⟩ := h
  refine ⟨c, hc, r, draws, registered, more ++ keys, hreq, hu, hr, hvalid, ?_, ?_⟩
  · rw [List.append_assoc]
  · intro key hkey
    rcases List.mem_append.mp hkey with hkey | hkey
    · exact hmore key hkey
    · exact hkeys key hkey

/-- What `register` stores. -/
theorem register_bundles (st : AppState) (w : World) (dbFails : Bool) (r : RegisterRequest)
    (draws : RegisterDraws) :
    (register st w dbFails r draws).1.bundles = w.bundles ∨
    ∃ bundle, r.prekeyBundle = .ok bundle ∧ bundle.validatePublic st.ed25519 = .ok () ∧
      (register st w dbFails r draws).1.bundles =
        w.bundles.insert draws.userId { bundle, updatedAt := w.now } := by
  unfold register
  split
  · exact .inl rfl
  · next bundle hcheck =>
    split
    · exact .inl rfl
    · split_ifs
      · exact .inl rfl
      · split
        · exact .inl rfl
        · next hinsert =>
          obtain ⟨-, hbundles⟩ := insertAccount_eq_ok hinsert
          refine .inr ⟨bundle, bundle_of_checkRegister hcheck, valid_of_checkRegister hcheck, ?_⟩
          split <;> exact hbundles

/-- The servers without any users' bundles. -/
def JsonWorld.start (rest : OAuth.World) : JsonWorld := { rest with bundles := ∅ }

def World.start (rest : OAuth.World) : World := { rest with bundles := ∅ }

/-- Every stored bundle comes from a registration. -/
def AllRegistered (st : AppState) (calls : List Call) (w : World) : Prop :=
  ∀ u row, w.bundles.lookup u = some row → FromRegistration st calls u row.bundle

theorem allRegistered_register {calls : List Call} (h : AllRegistered st calls w) {c : Call}
    {r : RegisterRequest} {draws : RegisterDraws} (hreq : c.request = .register r draws) :
    AllRegistered st (calls ++ [c]) (handle st w c).1 := by
  intro u row hrow
  have hold : ∀ row, w.bundles.lookup u = some row →
      FromRegistration st (calls ++ [c]) u row.bundle :=
    fun row hrow => (h u row hrow).mono (List.subset_append_left calls [c])
  have hhandle : (handle st w c).1 = (register st { w with now := c.now } c.dbFails r draws).1 := by
    simp only [handle, hreq]
  rw [hhandle] at hrow
  rcases register_bundles st { w with now := c.now } c.dbFails r draws with
    hsame | ⟨bundle, hr, hvalid, hinsert⟩
  · rw [hsame] at hrow
    exact hold row hrow
  · rw [hinsert, Table.lookup_insert_eq] at hrow
    split_ifs at hrow with hu
    · cases hrow
      exact ⟨c, List.mem_append_right _ List.mem_cons_self, r, draws, bundle, [], hreq, hu.symm,
        hr, hvalid, by simp, by simp⟩
    · exact hold row hrow

theorem allRegistered_handle {calls : List Call} (h : AllRegistered st calls w) (c : Call) :
    AllRegistered st (calls ++ [c]) (handle st w c).1 := by
  have hold : AllRegistered st (calls ++ [c]) w :=
    fun u row hrow => (h u row hrow).mono (List.subset_append_left calls [c])
  have hcase := handle_cases st w c
  generalize hw : (handle st w c).1 = w' at hcase ⊢
  generalize (handle st w c).2 = response at hcase
  cases hcase with
  | registered hreq =>
    rw [← hw]
    exact allRegistered_register h hreq
  | fetched _ _ _ hbundles | rejected hbundles =>
    intro u row hrow
    rw [hbundles] at hrow
    exact hold u row hrow
  | @replenished claims keys _ _ _ hvalid hbundles =>
    intro u row hrow
    rw [hbundles, Table.lookup_modify] at hrow
    split_ifs at hrow with hu
    · rw [← hu] at hrow
      obtain ⟨old, hlookup, rfl⟩ := Option.map_eq_some_iff.mp hrow
      exact (hold u old hlookup).append hvalid.keys.nonzero
    · exact hold u row hrow

theorem allRegistered_stateAfter (st : AppState) (rest : OAuth.World) (calls : List Call) :
    AllRegistered st calls (stateAfter (handle st) (.start rest) calls) := by
  induction calls using List.reverseRecOn with
  | nil =>
    intro u row hrow
    cases hrow
  | append_singleton calls c ih =>
    rw [stateAfter_concat]
    exact allRegistered_handle ih c

theorem read_prekeyBundle {r : JsonRegisterRequest} {bundle : PrekeyBundle}
    (h : (r.read shapeError).prekeyBundle = .ok bundle) :
    PrekeyBundle.fromValue r.prekeyBundle = some bundle := by
  unfold JsonRegisterRequest.read at h
  cases hread : PrekeyBundle.fromValue r.prekeyBundle with
  | none => simp [hread] at h
  | some b => simpa [hread] using h

theorem read_register {c : JsonCall} {r : RegisterRequest} {draws : RegisterDraws}
    (h : (c.read shapeError).request = .register r draws) :
    ∃ r', c.request = .register r' draws ∧ r = r'.read shapeError := by
  obtain ⟨request, now, dbFails⟩ := c
  cases request with
  | register r' draws' =>
    cases h
    exact ⟨r', rfl, rfl⟩
  | getBundle | replenishOneTime => cases h

/-- `get_bundle` answers the stored value. -/
theorem handleJson_getBundle {c : JsonCall} {claims : Claims} {u : Uuid} {x : JsonValue}
    (hreq : c.request = .getBundle claims u) (h : (handleJson st shapeError v c).2 = .bundle x) :
    ∃ row, v.bundles.lookup u = some row ∧ row.bundle = x := by
  have hanswer : (getBundleJson { v with now := c.now } c.dbFails u).2 = .bundle x := by
    simpa only [handleJson, hreq] using h
  unfold getBundleJson at hanswer
  split_ifs at hanswer
  cases hrow : v.bundles.lookup u with
  | none => simp [hrow] at hanswer
  | some row =>
    simp only [hrow] at hanswer
    exact ⟨row, rfl, JsonResponse.bundle.inj hanswer⟩

/-- Over any sequence of requests both servers give the same answers, whatever JSON values are
    registered. The value that `get_bundle` answers for a user can be read: it is the bundle that
    the user has registered, with more one-time prekeys. -/
theorem json_server_refines (st : AppState) (shapeError : JsonValue → String)
    (rest : OAuth.World) (calls : List JsonCall) :
    (trace (handleJson st shapeError) (.start rest) calls).map Prod.snd =
      (trace (handle st) (.start rest) (calls.map (JsonCall.read shapeError))).map
        (fun e => e.2.toJson) ∧
    ∀ c claims u x, (c, .bundle x) ∈ trace (handleJson st shapeError) (.start rest) calls →
      c.request = .getBundle claims u →
      ∃ c' ∈ calls, ∃ r draws registered more, c'.request = .register r draws ∧
        draws.userId = u ∧ PrekeyBundle.fromValue r.prekeyBundle = some registered ∧
        registered.validatePublic st.ed25519 = .ok () ∧
        PrekeyBundle.fromValue x =
          some { registered with oneTimePrekeys := registered.oneTimePrekeys ++ more } ∧
        ∀ key ∈ more, key.publicKey ≠ zeroKey := by
  have hstart : Represents (.start rest) (.start rest) := ⟨rfl, fun _ => rfl⟩
  have hsimulates := trace_simulates
    (fun v w c (h : Represents v w) => @represents_handle st shapeError v w h c) hstart
  refine ⟨(hsimulates calls).2, fun c claims u x hmem hreq => ?_⟩
  obtain ⟨before, after, rfl, hanswer⟩ := mem_trace.mp hmem
  obtain ⟨row, hrow, rfl⟩ := handleJson_getBundle hreq hanswer.symm
  rw [(hsimulates before).1.bundles u] at hrow
  obtain ⟨stored, hstored, rfl⟩ := Option.map_eq_some_iff.mp hrow
  obtain ⟨c', hc', r, draws, registered, more, hreq', hu, hr, hvalid, hbundle, hmore⟩ :=
    allRegistered_stateAfter st rest (before.map (JsonCall.read shapeError)) u stored hstored
  obtain ⟨c', hbefore, rfl⟩ := List.mem_map.mp hc'
  obtain ⟨sent, hsent, rfl⟩ := read_register hreq'
  refine ⟨c', List.mem_append_left _ hbefore, sent, draws, registered, more, hsent, hu,
    read_prekeyBundle hr, hvalid, ?_, hmore⟩
  rw [← hbundle]
  exact stored.bundle.fromValue_toValue

end FreeBox.Server.KeyServer
