import Listing.Json.Writer
import Listing.Paging

set_option autoImplicit false

namespace Listing

structure Row where
  id : Int64
  name : String
  note : Option String
  deriving DecidableEq, Repr

def Row.json (row : Row) : Json.Value :=
  .object
    [("id", .integer row.id.toInt), ("name", .string row.name),
      ("note", (row.note.map Json.Value.string).getD .null)]

def countJson (n : UInt64) : Json.Value :=
  .integer n.toNat

def PageSummary.json (s : PageSummary) : Json.Value :=
  .object
    [("page", countJson s.page), ("pageSize", countJson s.size), ("total", countJson s.total),
      ("totalPages", countJson s.totalPages), ("hasNextPage", .bool s.hasNext)]

def envelope (data : List Json.Value) (summary : PageSummary) : Json.Value :=
  .object [("success", .bool true), ("data", .array data), ("meta", summary.json)]

end Listing
