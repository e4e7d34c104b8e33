set_option autoImplicit false

namespace Listing

inductive FaultKind
  | custom
  | type
  | json
  | migration
  | attributeNotSet
  | query
  | execution
  | connection
  | acquisition
  | conversion
  | unsignedKey
  | updatedKey
  | insertId
  | notInserted
  | notUpdated
  deriving DecidableEq, Repr

inductive Fault
  | recordNotFound (message : String)
  | failed (kind : FaultKind) (message : String)
  deriving DecidableEq, Repr

end Listing
