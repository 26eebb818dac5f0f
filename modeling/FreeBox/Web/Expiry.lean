import FreeBox.Lib.Base64
import FreeBox.Lib.Ecma
import FreeBox.Lib.JsonText
import FreeBox.Server.KeyServer
import FreeBox.Server.OAuth

/-!
# The expiry of access tokens

Model of `jwtExp` in `apps/web/src/lib/api/client.ts` and of the tokens that `encode` of
`jsonwebtoken` makes from `auth::Claims`, whose header and signature are parameters. The
client decodes the payload with `atob`, the server encodes it with the URL-safe alphabet.

Results:
* `validateUsername_uniqueOAuthUsername`: the two rules for usernames agree.
* `plain_claimsJson`: which characters the claims of a user can have.
* `jwtExp_encodeToken`: the client reads the expiry of every token with such claims.
-/

namespace FreeBox.Web

open FreeBox.Lib FreeBox.Server
open FreeBox.Server.KeyServer (validateUsername usernameMin usernameMax)
open FreeBox.Server.OAuth (uniqueOAuthUsername OAuthUserProfile)

/-! ## The token -/

/-- `serde_json::to_vec` of `auth::Claims`, as text. -/
def claimsJson (claims : Claims) : List Char :=
  JsonText.object
    [("sub".toList, JsonText.string claims.sub.chars),
      ("username".toList, JsonText.string claims.username.toList),
      ("exp".toList, Json.number claims.exp),
      ("iat".toList, Json.number claims.iat)]

/-- `jsonwebtoken::encode`. -/
def encodeToken (header : Bytes) (sign : Bytes → Bytes) (claims : Claims) : String :=
  let message := Base64.encodeUrl header ++
    '.' :: Base64.encodeUrl (Ecma.textEncode (claimsJson claims))
  String.ofList (message ++ '.' :: Base64.encodeUrl (sign (Json.toAscii message)))

/-! ## The client -/

/-- `jwtExp`. What `split` does not give is the text `undefined` for `atob`, and a text
    of `atob` has a character for each byte. A member of `null` is an error. -/
def jwtExp (token : String) : Option ℚ :=
  let payload := ((token.toList.splitOn '.')[1]?).getD "undefined".toList
  (Base64.forgivingDecode payload).bind fun bytes =>
    (JsonText.parse (Json.ofAscii bytes)).bind fun payload =>
      match payload.get ("exp".toList.flatMap JsonText.utf16) with
      | some (.number exp) => some exp
      | _ => none

/-! ## Usernames -/

/-- A character that `validate_username` and the filter of `unique_oauth_username` let
    through. -/
def UsernameChar (c : Char) : Prop := c.isAlphanum = true ∨ c = '_' ∨ c = '-'

theorem toNat_of_isAlphanum {c : Char} (h : c.isAlphanum = true) :
    (65 ≤ c.toNat ∧ c.toNat ≤ 90) ∨ (97 ≤ c.toNat ∧ c.toNat ≤ 122) ∨
      (48 ≤ c.toNat ∧ c.toNat ≤ 57) := by
  rcases (Bool.or_eq_true _ _).mp h with h | h
  · rcases (Bool.or_eq_true _ _).mp h with h | h
    · exact .inl (of_decide_eq_true h)
    · obtain ⟨hlow, hhigh⟩ := (Bool.and_eq_true _ _).mp h
      exact .inr (.inl ⟨of_decide_eq_true hlow, of_decide_eq_true hhigh⟩)
  · obtain ⟨hlow, hhigh⟩ := (Bool.and_eq_true _ _).mp h
    exact .inr (.inr ⟨of_decide_eq_true hlow, of_decide_eq_true hhigh⟩)

theorem UsernameChar.toNat_lt {c : Char} (h : UsernameChar c) : c.toNat < 128 := by
  rcases h with h | rfl | rfl
  · have := toNat_of_isAlphanum h
    omega
  · decide
  · decide

theorem utf8ByteSize_ofList {s : List Char} (h : ∀ c ∈ s, c.toNat < 128) :
    (String.ofList s).utf8ByteSize = s.length := by
  induction s with
  | nil => rfl
  | cons c s ih =>
    have hc : c.utf8Size = 1 :=
      Char.utf8Size_eq_one_iff.mpr (Nat.le_of_lt_succ (h c List.mem_cons_self))
    rw [String.ofList_cons, String.utf8ByteSize_append, String.utf8ByteSize_singleton, hc,
      ih fun d hd => h d (List.mem_cons_of_mem c hd), List.length_cons, Nat.add_comm]

theorem validateUsername_ofList {s : List Char} (h : ∀ c ∈ s, UsernameChar c)
    (hmin : 3 ≤ s.length) (hmax : s.length ≤ 32) : validateUsername (String.ofList s) = .ok () := by
  have hall : (String.ofList s).toList.all
      (fun c => c.isAlphanum || c == '_' || c == '-') = true := by
    rw [String.toList_ofList, List.all_eq_true]
    intro c hc
    simpa [UsernameChar, or_assoc] using h c hc
  rw [validateUsername, utf8ByteSize_ofList fun c hc => (h c hc).toNat_lt, if_neg, if_pos hall]
  unfold usernameMin usernameMax
  omega

/-- A username that was registered has no other characters. -/
theorem usernameChar_of_validateUsername {username : String}
    (h : validateUsername username = .ok ()) : ∀ c ∈ username.toList, UsernameChar c := by
  rw [validateUsername] at h
  split_ifs at h with hlength hall
  intro c hc
  have := List.all_eq_true.mp hall c hc
  simpa [UsernameChar, or_assoc] using this

theorem usernameChar_chars {u : Uuid} {c : Char} (h : c ∈ u.chars) : UsernameChar c := by
  have hdigit : ∀ d < 16, (Nat.digitChar d).isAlphanum = true := by decide
  rcases Uuid.mem_chars h with rfl | ⟨d, hd, rfl⟩
  · exact .inr (.inr rfl)
  · exact .inl (hdigit d hd)

/-- Every profile is given a username that could be registered. -/
theorem validateUsername_uniqueOAuthUsername (profile : OAuthUserProfile) (tag : Uuid) :
    validateUsername (uniqueOAuthUsername profile tag) = .ok () := by
  unfold uniqueOAuthUsername
  dsimp only
  set filtered := (profile.username.getD "user").toList.filter fun c =>
    c.isAlphanum ∨ c = '_' ∨ c = '-' with hfiltered
  have hbase : ∀ base, base = (if filtered.length < 3 then "user".toList else filtered) →
      3 ≤ base.length ∧ ∀ c ∈ base, UsernameChar c := by
    intro base hbase
    by_cases hshort : filtered.length < 3
    · rw [hbase, if_pos hshort]
      refine ⟨by decide, ?_⟩
      intro c hc
      have hall : "user".toList.all Char.isAlphanum = true := by decide
      exact .inl (List.all_eq_true.mp hall c hc)
    · rw [hbase, if_neg hshort]
      refine ⟨Nat.le_of_not_lt hshort, ?_⟩
      intro c hc
      simpa [UsernameChar] using (List.mem_filter.mp hc).2
  obtain ⟨hlength, hchars⟩ := hbase _ rfl
  have htag : (tag.chars.take 8).length = 8 := by
    rw [List.length_take, Uuid.length_chars]
    rfl
  apply validateUsername_ofList
  · intro c hc
    rw [List.mem_append, List.mem_cons] at hc
    rcases hc with hc | rfl | hc
    · exact hchars c (List.mem_of_mem_take hc)
    · exact .inr (.inr rfl)
    · exact usernameChar_chars (List.mem_of_mem_take hc)
  · rw [List.length_append, List.length_cons, htag]
    omega
  · rw [List.length_append, List.length_cons, htag, List.length_take]
    omega

/-! ## The characters of the claims -/

/-- An ASCII character whose last six bits are a value that the two alphabets write with
    the same character: not `>`, `?`, `~` or DEL. -/
def Plain (c : Char) : Prop := c.toNat < 128 ∧ c.toNat % 64 < 62

instance (c : Char) : Decidable (Plain c) := inferInstanceAs (Decidable (_ ∧ _))

theorem UsernameChar.plain {c : Char} (h : UsernameChar c) : Plain c := by
  unfold Plain
  rcases h with h | rfl | rfl
  · have := toNat_of_isAlphanum h
    omega
  · decide
  · decide

theorem plain_number {n : ℕ} {c : Char} (h : c ∈ Json.number n) : Plain c := by
  have hdigit : c.isDigit = true := Nat.isDigit_of_mem_toDigits (by decide) (by decide) h
  exact UsernameChar.plain (.inl (by rw [Char.isAlphanum, hdigit, Bool.or_true]))

theorem UsernameChar.escape {c : Char} (h : UsernameChar c) : JsonText.escape c = [c] := by
  apply JsonText.escape_eq_self
  rcases h with h | rfl | rfl
  · have := toNat_of_isAlphanum h
    refine ⟨?_, ?_, by omega⟩
    · rintro rfl; exact absurd h (by decide)
    · rintro rfl; exact absurd h (by decide)
  · decide
  · decide

theorem plain_string {s : List Char} (hs : ∀ c ∈ s, UsernameChar c) :
    ∀ c ∈ JsonText.string s, Plain c := by
  have hquote : Plain '"' := by decide
  have hescape : s.flatMap JsonText.escape = s := by
    rw [List.flatMap_congr fun c hc => (hs c hc).escape, List.flatMap_singleton']
  intro c hc
  rw [JsonText.string, hescape, List.cons_append, List.mem_cons, List.mem_append,
    List.mem_singleton] at hc
  rcases hc with rfl | hc | rfl
  · exact hquote
  · exact (hs c hc).plain
  · exact hquote

/-- The members of an object, if the names and the values are texts of such characters. -/
theorem plain_objectTail {ms : List (List Char × List Char)}
    (hms : ∀ m ∈ ms, (∀ c ∈ m.1, UsernameChar c) ∧ ∀ c ∈ m.2, Plain c) :
    ∀ c ∈ JsonText.objectTail ms, Plain c := by
  induction ms with
  | nil =>
    intro c hc
    obtain rfl := List.mem_singleton.mp hc
    decide
  | cons m ms ih =>
    obtain ⟨hname, hvalue⟩ := hms m List.mem_cons_self
    have htail := ih fun k hk => hms k (List.mem_cons_of_mem m hk)
    intro c hc
    simp only [JsonText.objectTail, List.cons_append, List.mem_cons, List.mem_append] at hc
    rcases hc with rfl | (hc | rfl | hc) | hc
    · decide
    · exact plain_string hname c hc
    · decide
    · exact hvalue c hc
    · exact htail c hc

/-- No character of the claims makes a difference between the two alphabets. -/
theorem plain_claimsJson {claims : Claims} (h : ∀ c ∈ claims.username.toList, UsernameChar c) :
    ∀ c ∈ claimsJson claims, Plain c := by
  have hnames : ∀ name ∈ ["sub", "username", "exp", "iat"], ∀ c ∈ name.toList,
      UsernameChar c := by
    have hall : ∀ name ∈ ["sub", "username", "exp", "iat"],
        name.toList.all Char.isAlphanum = true := by decide
    intro name hname c hc
    exact .inl (List.all_eq_true.mp (hall name hname) c hc)
  have hmembers : ∀ m ∈ [("sub".toList, JsonText.string claims.sub.chars),
      ("username".toList, JsonText.string claims.username.toList),
      ("exp".toList, Json.number claims.exp), ("iat".toList, Json.number claims.iat)],
      (∀ c ∈ m.1, UsernameChar c) ∧ ∀ c ∈ m.2, Plain c := by
    simp only [List.forall_mem_cons]
    exact ⟨⟨hnames "sub" (by simp), plain_string fun c => usernameChar_chars⟩,
      ⟨hnames "username" (by simp), plain_string h⟩,
      ⟨hnames "exp" (by simp), fun c => plain_number⟩,
      ⟨hnames "iat" (by simp), fun c => plain_number⟩,
      fun m hm => absurd hm List.not_mem_nil⟩
  intro c hc
  -- the first member stands after a brace in place of a comma
  rcases List.mem_cons.mp hc with rfl | hc
  · decide
  · exact plain_objectTail hmembers c (List.mem_cons_of_mem _ hc)

/-! ## Reading the token -/

theorem parse_claimsJson (claims : Claims) :
    JsonText.parse (claimsJson claims) = some (.object
      [("sub".toList.flatMap JsonText.utf16, .string (claims.sub.chars.flatMap JsonText.utf16)),
        ("username".toList.flatMap JsonText.utf16,
          .string (claims.username.toList.flatMap JsonText.utf16)),
        ("exp".toList.flatMap JsonText.utf16, .number (Double.fl claims.exp)),
        ("iat".toList.flatMap JsonText.utf16, .number (Double.fl claims.iat))]) := by
  refine JsonText.parse_object (_, _, _) [(_, _, _), (_, _, _), (_, _, _)] ?_
  simp only [List.forall_mem_cons]
  exact ⟨JsonText.reads_string _, JsonText.reads_string _, JsonText.reads_number _,
    JsonText.reads_number _, fun f hf => absurd hf List.not_mem_nil⟩

/-- The payload is the second piece of a token. -/
theorem splitOn_encodeToken (header : Bytes) (sign : Bytes → Bytes) (claims : Claims) :
    ((encodeToken header sign claims).toList.splitOn '.')[1]? =
      some (Base64.encodeUrl (Ecma.textEncode (claimsJson claims))) := by
  have hsplit : ∀ bytes, (Base64.encodeUrl bytes).splitOn '.' = [Base64.encodeUrl bytes] :=
    fun bytes => List.splitOn_eq_singleton (Base64.notMem_encodeUrl bytes).2
  rw [encodeToken, String.toList_ofList, List.splitOn_append_cons_self,
    List.splitOn_append_cons_self, hsplit, hsplit, hsplit]
  rfl

/-- The client reads the expiry of the tokens of every user who can exist. -/
theorem jwtExp_encodeToken (header : Bytes) (sign : Bytes → Bytes) :
    (∀ profile tag, validateUsername (uniqueOAuthUsername profile tag) = .ok ()) ∧
      ∀ claims : Claims,
        (validateUsername claims.username = .ok () ∨
          ∃ profile tag, claims.username = uniqueOAuthUsername profile tag) →
        claims.exp < 2 ^ 53 → jwtExp (encodeToken header sign claims) = some (claims.exp : ℚ) := by
  refine ⟨validateUsername_uniqueOAuthUsername, ?_⟩
  intro claims husername hexp
  have hvalid : validateUsername claims.username = .ok () := by
    rcases husername with h | ⟨profile, tag, h⟩
    · exact h
    · rw [h]
      exact validateUsername_uniqueOAuthUsername profile tag
  have hplain := plain_claimsJson (usernameChar_of_validateUsername hvalid)
  have hascii : ∀ c ∈ claimsJson claims, c.toNat < 128 := fun c hc => (hplain c hc).1
  have hbytes : ∀ b ∈ Json.toAscii (claimsJson claims), b.toNat < 128 ∧ b.toNat % 64 < 62 := by
    intro b hb
    obtain ⟨c, hc, rfl⟩ := List.mem_map.mp hb
    have hbyte : (UInt8.ofNat c.toNat).toNat = c.toNat :=
      UInt8.toNat_ofNat_of_lt' (by have := hascii c hc; rw [UInt8.size]; omega)
    rw [hbyte]
    exact hplain c hc
  rw [jwtExp, splitOn_encodeToken, Option.getD_some, Ecma.textEncode_ascii hascii,
    Base64.forgivingDecode_encodeUrl hbytes, Option.bind_some, Json.ofAscii_toAscii hascii,
    parse_claimsJson, Option.bind_some, Double.fl_natCast hexp]
  rfl

theorem jwtExp_encodeToken_run :
    jwtExp (encodeToken [] (fun _ => []) { sub := ⟨0⟩, username := "al_", exp := 900, iat := 0 }) =
      some (900 : ℕ) :=
  (jwtExp_encodeToken [] fun _ => []).2 _ (.inl (by decide)) (by decide)

end FreeBox.Web
