import FreeBox.Lib.Json
import FreeBox.Lib.Text
import FreeBox.Lib.Uuid
import FreeBox.Server.Error

/-!
# Requests and authentication

What the middleware reads of a request, and `require_auth` in
`apps/server/src/api/auth.rs`. The decoding and validation of a JSON web token is
a parameter.
-/

namespace FreeBox.Server

open FreeBox.Lib

/-- `HeaderValue::to_str`: visible ASCII characters, spaces and tabs. -/
def headerToStr (value : Bytes) : Option (List Char) :=
  if value.all fun b => (32 ≤ b ∧ b < 127) ∨ b = 9 then
    some (value.map fun b => Char.ofNat b.toNat)
  else none

theorem headerToStr_toAscii {s : List Char} (h : ∀ c ∈ s, 32 ≤ c.toNat ∧ c.toNat < 127) :
    headerToStr (Json.toAscii s) = some s := by
  have hvisible : (Json.toAscii s).all (fun b => (32 ≤ b ∧ b < 127) ∨ b = 9) = true := by
    rw [List.all_eq_true]
    intro b hb
    obtain ⟨c, hc, rfl⟩ := List.mem_map.mp hb
    obtain ⟨hlow, hhigh⟩ := h c hc
    have hbyte : (UInt8.ofNat c.toNat).toNat = c.toNat :=
      UInt8.toNat_ofNat_of_lt' (by rw [UInt8.size]; omega)
    refine decide_eq_true (.inl ⟨UInt8.le_iff_toNat_le.mpr ?_, UInt8.lt_iff_toNat_lt.mpr ?_⟩)
    · rw [hbyte]; exact hlow
    · rw [hbyte]; exact hhigh
  have htext : Json.ofAscii (Json.toAscii s) = s :=
    Json.ofAscii_toAscii fun c hc => lt_trans (h c hc).2 (by decide)
  rw [headerToStr, if_pos hvisible]
  exact congrArg some htext

/-- The value of the `Authorization` header and the address of the peer, as it is
    printed, from `ConnectInfo`. -/
structure HttpRequest where
  authorization : Option Bytes
  peerIp : Option String
  deriving DecidableEq

/-- The value of the `Authorization` header as text. -/
def HttpRequest.authorizationText (req : HttpRequest) : Option String :=
  (req.authorization.bind headerToStr).map String.ofList

/-- `auth::Claims`. -/
structure Claims where
  sub : Uuid
  username : String
  exp : ℕ
  iat : ℕ
  deriving DecidableEq

/-- `auth::require_auth`: the claims that the handlers are given. `decode` checks the
    signature and the expiry of a token. -/
def requireAuth (decode : String → Option Claims) (req : HttpRequest) : Except AppError Claims :=
  match req.authorizationText.bind (stripPrefix "Bearer ") with
  | none => .error (.unauthorized "missing Bearer token")
  | some token =>
    match decode token with
    | none => .error (.unauthorized "invalid or expired token")
    | some claims => .ok claims

end FreeBox.Server
