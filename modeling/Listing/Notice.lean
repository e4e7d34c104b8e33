import Listing.Fault
import Listing.Numeric.Digits
import Listing.Sql.Value

/-!
Notices: what a request asked for and did not get, and how a request ended. A traced value carries
the notices of its computation in the order in which they arose.
-/

set_option autoImplicit false

namespace Listing

inductive Level
  | debug
  | error
  deriving DecidableEq, Repr

def Level.name : Level → String
  | .debug => "DEBUG"
  | .error => "ERROR"

inductive Notice
  | pageSizeCapped (requested greatest : UInt64)
  | filtersNotArray
  | filtersNotJson (text : String)
  | descriptorMalformed
  | fieldUnlisted (field : String)
  | sortFieldUnknown (field : String)
  | equalityUnreadable (key : String) (kind : Sql.Kind)
  | listed (resource : String) (page size total : UInt64)
  | refused (message status : String)
  | databaseFailed (fault : Fault)
  deriving DecidableEq

namespace Notice

def level : Notice → Level
  | databaseFailed _ => .error
  | _ => .debug

def message : Notice → String
  | pageSizeCapped .. => "Capping requested page size"
  | filtersNotArray => "Ignoring filters parameter that is not a JSON array"
  | filtersNotJson .. => "Ignoring invalid JSON in filters parameter"
  | descriptorMalformed => "Dropping malformed filter descriptor"
  | fieldUnlisted .. => "Dropping filter on unlisted field"
  | sortFieldUnknown .. => "Unknown sort field, using default"
  | equalityUnreadable .. => "Dropping equality filter with unparsable value"
  | listed .. => "Listed resources"
  | refused .. => "API error"
  | databaseFailed .. => "Database error occurred"

def countText (n : UInt64) : String :=
  String.ofList (Numeric.decimalDigits n.toNat)

/-- What the reader of JSON says about a text that it refuses, and the database about its fault,
where their words are known. -/
structure Wording where
  refused : String → Option String := fun _ => none
  fault : Fault → Option String := fun _ => none

def details (n : Notice) (wording : Wording := {}) : List (String × String) :=
  match n with
  | pageSizeCapped requested greatest =>
    [("requested", countText requested), ("max_page_size", countText greatest)]
  | filtersNotJson text => ((wording.refused text).map ("error", ·)).toList
  | fieldUnlisted field => [("field", field)]
  | sortFieldUnknown field => [("field", field)]
  | equalityUnreadable key kind => [("key", key), ("kind", kind.name)]
  | listed resource page size total =>
    [("resource", resource), ("page", countText page), ("page_size", countText size),
      ("total", countText total)]
  | refused message status => [("error", message), ("status", status)]
  | databaseFailed fault => ((wording.fault fault).map ("error", ·)).toList
  | _ => []

end Notice

structure Traced (α : Type) where
  value : α
  notices : List Notice := []

namespace Traced

variable {α β : Type}

def note (n : Notice) : Traced Unit :=
  { value := (), notices := [n] }

instance : Monad Traced where
  pure a := { value := a }
  bind x f := { value := (f x.value).value, notices := x.notices ++ (f x.value).notices }

def collect (f : α → Traced (List β)) : List α → Traced (List β)
  | [] => pure []
  | a :: rest => do
    let here ← f a
    let there ← collect f rest
    return here ++ there

@[simp] theorem value_pure (a : α) : (pure a : Traced α).value = a := rfl

@[simp] theorem notices_pure (a : α) : (pure a : Traced α).notices = [] := rfl

@[simp] theorem value_bind (x : Traced α) (f : α → Traced β) :
    (x >>= f).value = (f x.value).value := rfl

@[simp] theorem notices_bind (x : Traced α) (f : α → Traced β) :
    (x >>= f).notices = x.notices ++ (f x.value).notices := rfl

@[simp] theorem notices_note (n : Notice) : (note n).notices = [n] := rfl

@[simp] theorem value_collect (f : α → Traced (List β)) (as : List α) :
    (collect f as).value = as.flatMap fun a => (f a).value := by
  induction as with
  | nil => rfl
  | cons a as ih => simp [collect, ih]

@[simp] theorem notices_collect (f : α → Traced (List β)) (as : List α) :
    (collect f as).notices = as.flatMap fun a => (f a).notices := by
  induction as with
  | nil => rfl
  | cons a as ih => simp [collect, ih]

end Traced
end Listing
