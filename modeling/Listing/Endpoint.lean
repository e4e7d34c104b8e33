import Listing.Failure
import Listing.Resource

/-!
The endpoint of a resource: one path, two statements, one answer. A request is answered with all
rows of the page and their summary, or with the first failure and nothing else. Parameters never
fail a request.
-/

set_option autoImplicit false

namespace Listing

open Sql

/-- A request target: the path and the query string, both undecoded. -/
structure Target where
  path : String
  query : String
  deriving DecidableEq, Repr

namespace Target

def isSchemeChar (c : Char) : Bool :=
  c.isAlphanum || c == '+' || c == '-' || c == '.'

/-- A scheme and a host in front of the path are passed over. -/
def dropOrigin (s : List Char) : List Char :=
  match s.dropWhile isSchemeChar with
  | ':' :: '/' :: '/' :: rest => rest.dropWhile fun c => c != '/' && c != '?'
  | _ => s

def ofText (text : String) : Target :=
  let s := dropOrigin (text.toList.takeWhile (· != '#'))
  { path := String.ofList (s.takeWhile (· != '?'))
    query := String.ofList ((s.dropWhile (· != '?')).drop 1) }

end Target

structure Request where
  method : String
  target : String
  deriving DecidableEq, Repr

structure RowFormat where
  Item : Type
  decode : Record → Except Fault Item
  json : Item → Json.Value

def RowFormat.standard : RowFormat where
  Item := Row
  decode := Row.ofRecord
  json := Row.json

structure Endpoint where
  path : String
  resource : Resource
  dialect : Dialect
  rows : RowFormat := .standard

structure Exchange where
  response : Response
  session : Session

namespace Endpoint

def fetch (e : Endpoint) (s : Selection) : Run (List e.rows.Item × UInt64) := do
  let records ← Session.ask (e.resource.pageStatement e.dialect s)
  let rows ← Session.decoded (records.mapM e.rows.decode)
  let counted ← Session.ask (e.resource.countStatement e.dialect s)
  let total ← Session.decoded (countOf counted)
  return (rows, total)

def list (e : Endpoint) (query : String) (session : Session) : Traced Exchange := do
  let selection ← e.resource.resolve (Parameters.ofQueryString query)
  match (e.fetch selection).run session with
  | (.error fault, session) => do
    let response ← (Failure.ofFault fault).answer
    return { response, session }
  | (.ok (rows, total), session) => do
    let window := selection.window
    Traced.note (.listed e.resource.name window.page window.size total)
    let body := envelope (rows.map e.rows.json) (.of window total)
    return { response := .json .ok body, session }

/-- The path is compared as written and before the method; a request for the head alone is
answered like any other, less the body. -/
def handle (e : Endpoint) (request : Request) (session : Session) : Traced Exchange :=
  let target := Target.ofText request.target
  if target.path != e.path then pure { response := .bare .notFound, session }
  else if request.method = "GET" then e.list target.query session
  else if request.method = "HEAD" then do
    let exchange ← e.list target.query session
    return { exchange with response := exchange.response.withoutBody }
  else pure { response := .bare .methodNotAllowed, session }

end Endpoint
end Listing
