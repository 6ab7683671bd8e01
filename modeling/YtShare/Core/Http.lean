/-
# HTTP errors

`backend/internal/httpx`.  A handler fails with an `HTTPError`, which names the
status, code and message of the answer, or with any other error, which
`WriteError` answers as an internal error without telling what it was.
-/

namespace YtShare

/-- `APIError`. -/
structure APIError where
  code : String
  message : String
deriving DecidableEq, Repr

/-- `HTTPError`, without the cause, which no answer shows. -/
structure HTTPError where
  status : Nat
  code : String
  message : String
deriving DecidableEq, Repr

/-- A Go `error`: an `HTTPError`, or any other. -/
inductive Failure
  | http (e : HTTPError)
  | other
deriving DecidableEq, Repr

/-- `WriteError`: the status and body of the answer. -/
def writeError : Failure → Nat × APIError
  | .http e => (e.status, ⟨e.code, e.message⟩)
  | .other => (500, ⟨"internal_error", "internal server error"⟩)

end YtShare
