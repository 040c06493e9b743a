/-!
# Access

What a transaction may do with the store, and how transactions are named.
-/

namespace SalientGraph

/-- What a transaction may do. -/
inductive Access where
  | readOnly
  | readWrite
deriving DecidableEq, Inhabited

namespace Access

def isWritable : Access → Bool
  | .readOnly => false
  | .readWrite => true

def name : Access → String
  | .readOnly => "ReadOnly"
  | .readWrite => "ReadWrite"

end Access

/-- A transaction by its number. Numbers count up from 1. -/
structure TransactionId where
  number : Nat
deriving DecidableEq, Inhabited

/-- The name of a transaction in messages. -/
def TransactionId.text (id : TransactionId) : String :=
  "tx-" ++ toString id.number

end SalientGraph
