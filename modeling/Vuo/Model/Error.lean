import Vuo.Model.Primitives

/-!
# Errors

What a request or a database step can fail with, and the classifiers the
replay decides by.
-/

namespace Vuo

/-- Why a request never produced an answer. -/
inductive TransportKind
  | connect
  | tls
  | timeout
  | bodyTooLarge
  | redirectRefused
  | cancelled
  | other
  deriving DecidableEq

namespace TransportKind

def toString : TransportKind → String
  | connect => "could not reach the server"
  | tls => "TLS handshake or certificate verification failed"
  | timeout => "timed out"
  | bodyTooLarge => "response body exceeded the size cap"
  | redirectRefused => "redirect refused by policy"
  | cancelled => "cancelled"
  | other => "transport error"

end TransportKind

inductive Error
  | config (message : String)
  | transport (endpoint : String) (kind : TransportKind) (detail : String)
  | http (status : ℕ) (endpoint : String) (message : Option String)
  | protocol (message : String)
  | item (kind : String) (id : Option ℤ) (reason : String)
  | db (message : String)
  | migration (version : ℤ) (reason : String)
  | content (message : String)
  | cancelled
  deriving DecidableEq

namespace Error

/-- The text the error is shown and recorded as. -/
def toString : Error → String
  | config message => "configuration error: " ++ message
  | transport endpoint kind _ => kind.toString ++ " (" ++ endpoint ++ ")"
  | http status endpoint message =>
      "server returned HTTP " ++ status.repr ++ " for " ++ endpoint ++
        (message.map fun m => ": " ++ m).getD ""
  | protocol message => "malformed response from server: " ++ message
  | item kind id reason =>
      "unusable " ++ kind ++ " (id " ++
        (match id with
          | some n => "Some(" ++ n.repr ++ ")"
          | none => "None") ++
        "): " ++ reason
  | db message => "database error: " ++ message
  | migration version reason =>
      "database migration " ++ version.repr ++ " failed: " ++ reason
  | content message => "could not transform article content: " ++ message
  | cancelled => "cancelled"

def isItemLocal : Error → Bool
  | item .. => true
  | _ => false

/-- The statuses that say this body is never accepted. -/
def rejectedStatuses : List ℕ :=
  [400, 411, 413, 414, 415, 422, 431]

def isPermanentlyRejected : Error → Bool
  | http status _ _ => rejectedStatuses.contains status
  | _ => false

def isTransient : Error → Bool
  | transport _ kind _ =>
      match kind with
      | .redirectRefused | .bodyTooLarge | .cancelled => false
      | _ => true
  | http status _ _ => status = 429 || (500 ≤ status && status < 600)
  | db _ => true
  | _ => false

def isAuthFailure : Error → Bool
  | http status _ _ => status = 401 || status = 403
  | _ => false

/-- Only an answer with a status can be a permanent rejection. -/
theorem isPermanentlyRejected_iff {e : Error} :
    e.isPermanentlyRejected = true ↔
      ∃ status endpoint message, e = http status endpoint message ∧
        status ∈ rejectedStatuses := by
  cases e <;> simp [isPermanentlyRejected]

/-- A permanent rejection is neither worth retrying nor about credentials. -/
theorem not_isTransient_of_isPermanentlyRejected {e : Error}
    (h : e.isPermanentlyRejected = true) :
    e.isTransient = false ∧ e.isAuthFailure = false := by
  obtain ⟨status, endpoint, message, rfl, hstatus⟩ := isPermanentlyRejected_iff.1 h
  simp only [rejectedStatuses, List.mem_cons, List.not_mem_nil, or_false] at hstatus
  rcases hstatus with rfl | rfl | rfl | rfl | rfl | rfl | rfl <;>
    exact ⟨rfl, rfl⟩

end Error

end Vuo
