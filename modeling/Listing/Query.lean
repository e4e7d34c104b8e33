import Listing.Json.Value

/-!
The parameters of a list request as a typed record, with their descriptions. The record is read
strictly from JSON: a member it does not know is passed over, as long as it is well formed, but a
known member has to occur once and with the right type.
-/

set_option autoImplicit false

namespace Listing

open Json Numeric

structure Query where
  page : Option UInt64
  pageSize : Option UInt64
  search : Option String
  sortField : Option String
  sortOrder : Option String
  filters : Option String
  deriving DecidableEq, Repr

structure ParameterEntry where
  name : String
  description : String
  required : Bool := false
  location : String := "query"
  sample : Json.Value

namespace Query

def entries : List ParameterEntry :=
  [ { name := "page"
      description := "Page number, starting at 1."
      sample := .integer 1 },
    { name := "pageSize"
      description := "Number of rows per page."
      sample := .integer 20 },
    { name := "search"
      description := "Free-text search across the endpoint's searchable columns."
      sample := .string "acme" },
    { name := "sortField"
      description := "Logical name of the field to sort by."
      sample := .string "name" },
    { name := "sortOrder"
      description := "`asc` or `desc`."
      sample := .string "asc" },
    { name := "filters"
      description := "JSON-encoded array of filter descriptors."
      sample := .string "[\x7b\"field\":\"name\",\"operator\":\"like\",\"value\":\"jo\"\x7d]" } ]

def readCount? : Tree → Option (Option UInt64)
  | .leaf .null => some none
  | .leaf (.number l) =>
    if l.isNegative then none else (readInteger? l).map fun i => some (UInt64.ofNat i.toNat)
  | _ => none

def readText? : Tree → Option (Option String)
  | .leaf .null => some none
  | .leaf (.string parts) => (readString? parts).map some
  | _ => none

def ofTrees? (page pageSize search sortField sortOrder filters : Tree) : Option Query := do
  return {
    page := ← readCount? page
    pageSize := ← readCount? pageSize
    search := ← readText? search
    sortField := ← readText? sortField
    sortOrder := ← readText? sortOrder
    filters := ← readText? filters }

/-- Names are read even where the member is passed over. -/
def readNames? (members : List (List Part × Tree)) : Option (List (String × Tree)) :=
  members.mapM fun m => (readString? m.1).map (·, m.2)

/-- The member of a name: null if there is none, nothing if there are several. -/
def single? (members : List (String × Tree)) (name : String) : Option Tree :=
  match members.filter (·.1 == name) with
  | [] => some (.leaf .null)
  | [m] => some m.2
  | _ => none

def ofMembers? (members : List (String × Tree)) : Option Query := do
  let page ← single? members "page"
  let pageSize ← single? members "pageSize"
  let search ← single? members "search"
  let sortField ← single? members "sortField"
  let sortOrder ← single? members "sortOrder"
  let filters ← single? members "filters"
  ofTrees? page pageSize search sortField sortOrder filters

/-- Besides an object, an array of all six in their order is accepted. -/
def ofTree? : Tree → Option Query
  | .object members => (readNames? members).bind ofMembers?
  | .array [page, pageSize, search, sortField, sortOrder, filters] =>
    ofTrees? page pageSize search sortField sortOrder filters
  | _ => none

def ofText? (text : String) : Option Query :=
  (Tree.ofText? text.toList).bind ofTree?

end Query
end Listing
