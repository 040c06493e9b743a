/-!
# Faults

Why an operation gives no answer. A fault is either the request's own doing, an
interruption by the caller, or internal to the machinery; the text of an internal
one is not for the caller's eyes.
-/

namespace SalientGraph

inductive Fault where
  | notFound (subject : String)
  | conflict (reason : String)
  | unavailable (reason : String)
  | invalidArgument (reason : String)
  | cancelled
  | deadlineExceeded
  | storage (reason : String)
  | crypto (reason : String)
  /-- A text or a payload that does not spell out what it should. -/
  | malformed
deriving DecidableEq, Inhabited

namespace Fault

/-- The text of a fault. -/
def message : Fault → String
  | .notFound subject => "Not found: " ++ subject
  | .conflict reason => "Conflict: " ++ reason
  | .unavailable reason => "Unavailable: " ++ reason
  | .invalidArgument reason => "Invalid argument: " ++ reason
  | .cancelled => "Operation cancelled"
  | .deadlineExceeded => "Deadline exceeded"
  | .storage reason => "Storage error: " ++ reason
  | .crypto reason => "Crypto error: " ++ reason
  | .malformed => "Serialization error"

/-- A failure of the machinery rather than of the request. -/
def isInternal : Fault → Bool
  | .storage _ | .crypto _ | .malformed => true
  | _ => false

/-- The caller gave up. -/
def isInterruption : Fault → Bool
  | .cancelled | .deadlineExceeded => true
  | _ => false

/-- The text to hand to a caller. -/
def publicMessage (f : Fault) : String :=
  if f.isInternal then "internal error" else f.message

theorem publicMessage_of_isInternal {f : Fault} (h : f.isInternal = true) :
    f.publicMessage = "internal error" := by
  simp [publicMessage, h]

end Fault
end SalientGraph
