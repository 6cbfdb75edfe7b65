/-! # What the HTTP API replies

`ApiReply` and `ErrorMessage`, with the status an HTTP client sees. Bodies are the values
themselves; how serde writes them is left out.
-/

namespace Lindy.Http

/-- The `http::StatusCode`s the handlers name. -/
inductive StatusCode where
  | badRequest | notFound | failedDependency | internalServerError
  deriving DecidableEq

def StatusCode.asU16 : StatusCode → Nat
  | badRequest => 400
  | notFound => 404
  | failedDependency => 424
  | internalServerError => 500

/-- Each of these codes has a reason, so the `unwrap` around it does nothing. -/
def StatusCode.canonicalReason : StatusCode → String
  | badRequest => "Bad Request"
  | notFound => "Not Found"
  | failedDependency => "Failed Dependency"
  | internalServerError => "Internal Server Error"

structure ErrorMessage where
  code : Nat
  error : String
  deriving DecidableEq

namespace ErrorMessage

def fromStatus (status : StatusCode) : ErrorMessage where
  code := status.asU16
  error := status.canonicalReason

def notFound : ErrorMessage := fromStatus .notFound

def internalServerError : ErrorMessage := fromStatus .internalServerError

def badRequest : ErrorMessage := fromStatus .badRequest

def withMessage (self : ErrorMessage) (message : String) : ErrorMessage where
  code := self.code
  error := message

@[simp] theorem fromStatus_code (status : StatusCode) :
    (fromStatus status).code = status.asU16 := rfl

@[simp] theorem withMessage_code (self : ErrorMessage) (message : String) :
    (self.withMessage message).code = self.code := rfl

end ErrorMessage

inductive ApiReply (T : Type) where
  | ok (value : T)
  | err (error : ErrorMessage)
  | created (location : String) (value : T)
  | noContent
  deriving DecidableEq

namespace ApiReply

variable {T : Type}

/-- The status of `into_response`; `none` when `StatusCode::from_u16` refuses the code and the
    `unwrap` panics. -/
def status : ApiReply T → Option Nat
  | ok _ => some 200
  | err error => if 100 ≤ error.code ∧ error.code < 1000 then some error.code else none
  -- only the location is set, the status stays the one of a JSON reply
  | created _ _ => some 200
  | noContent => some 204

/-- An error made from a named status replies with it, whatever its message. -/
theorem status_err {error : ErrorMessage} {code : StatusCode} (same : error.code = code.asU16) :
    (err error : ApiReply T).status = some code.asU16 := by
  simp only [status, same]
  cases code <;> rfl

end ApiReply

end Lindy.Http
