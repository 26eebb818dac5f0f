import Mathlib.Data.Nat.Notation

/-!
# Errors of the handlers

Model of `apps/server/src/error.rs`.
-/

namespace FreeBox.Server

/-- `error::AppError`. The cause of an internal error is logged and does not
    reach the client of a release build, so it is left out. -/
inductive AppError
  | notFound (message : String)
  | unauthorized (message : String)
  | forbidden (message : String)
  | badRequest (message : String)
  | conflict (message : String)
  | rateLimited (message : String)
  | payloadTooLarge (message : String)
  | internal
  deriving DecidableEq

namespace AppError

/-- The status code and the title that `into_response` chooses. -/
def statusAndTitle : AppError → ℕ × String
  | notFound _ => (404, "Not Found")
  | unauthorized _ => (401, "Unauthorized")
  | forbidden _ => (403, "Forbidden")
  | badRequest _ => (400, "Bad Request")
  | conflict _ => (409, "Conflict")
  | rateLimited _ => (429, "Too Many Requests")
  | payloadTooLarge _ => (413, "Payload Too Large")
  | internal => (500, "Internal Server Error")

/-- The message that a release build sends. -/
def message : AppError → String
  | notFound m => "Not found: " ++ m
  | unauthorized m => "Unauthorized: " ++ m
  | forbidden m => "Forbidden: " ++ m
  | badRequest m => "Bad request: " ++ m
  | conflict m => "Conflict: " ++ m
  | rateLimited m => "Too many requests: " ++ m
  | payloadTooLarge m => "Payload too large: " ++ m
  | internal => "An unexpected error occurred"

end AppError

end FreeBox.Server
