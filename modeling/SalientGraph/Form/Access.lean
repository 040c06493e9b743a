import SalientGraph.Access
import SalientGraph.Form.Reading

/-!
# JSON forms of accesses and transactions

An access is written by its name, or as an object with the name as its only key.
-/

namespace SalientGraph
namespace Form

/-- The access of a name. -/
def accessNamed? (name : String) : Option Access :=
  [Access.readOnly, Access.readWrite].find? fun access => access.name == name

def access : Reading Access
  | _, .text (some name) => accessNamed? name
  | _ + 1, .object [(some name, .null)] => accessNamed? name
  | _, _ => none

def transactionId : Reading TransactionId := fun levels d =>
  (word levels d).map TransactionId.mk

end Form
end SalientGraph
