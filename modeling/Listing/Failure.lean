import Listing.Database
import Listing.Text.Blank

set_option autoImplicit false

namespace Listing

inductive Status
  | ok
  | badRequest
  | notFound
  | methodNotAllowed
  | internalError
  deriving DecidableEq, Repr

namespace Status

def code : Status → Nat
  | ok => 200
  | badRequest => 400
  | notFound => 404
  | methodNotAllowed => 405
  | internalError => 500

def text : Status → String
  | ok => "200 OK"
  | badRequest => "400 Bad Request"
  | notFound => "404 Not Found"
  | methodNotAllowed => "405 Method Not Allowed"
  | internalError => "500 Internal Server Error"

end Status

structure Response where
  status : Status
  contentType : Option String
  body : String
  deriving DecidableEq, Repr

namespace Response

def json (status : Status) (v : Json.Value) : Response :=
  { status, contentType := some "application/json", body := v.text }

def bare (status : Status) : Response :=
  { status, contentType := none, body := "" }

def withoutBody (r : Response) : Response :=
  { r with body := "" }

end Response

inductive Failure
  | badRequest (message : String)
  | notFound (subject : String)
  | database (fault : Fault)
  deriving DecidableEq, Repr

namespace Failure

/-- A missing record is the client's mistake, every other fault is the server's. -/
def ofFault : Fault → Failure
  | .recordNotFound message => .notFound ((Text.firstWord? message).getD "Resource")
  | fault => .database fault

def status : Failure → Status
  | badRequest _ => .badRequest
  | notFound _ => .notFound
  | database _ => .internalError

def message : Failure → String
  | badRequest message => message
  | notFound subject => subject ++ " not found"
  | database _ => "A database error occurred"

def notice (f : Failure) : Notice :=
  match f with
  | database fault => .databaseFailed fault
  | _ => .refused f.message f.status.text

def answer (f : Failure) : Traced Response := do
  Traced.note f.notice
  return .json f.status
    (.object [("success", .bool false), ("error", .string f.message)])

end Failure
end Listing
