import Listing.Envelope
import Listing.Numeric.Integer
import Listing.Sql.Statement

/-!
A database as a list request sees it. A session holds the replies that the database will give and
the statements it was given; asking takes the next reply, and after the last one every statement
fails. Replies are decoded strictly: one row that does not decode fails the query.
-/

set_option autoImplicit false

namespace Listing

open Sql

inductive Cell
  | null
  | text (s : String)
  | integer (i : Int64)
  deriving DecidableEq, Repr

abbrev Record := Table Cell

inductive Reply
  | rows (records : List Record)
  | fault (f : Fault)
  deriving DecidableEq, Repr

structure Session where
  replies : List Reply
  statements : List Statement := []

abbrev Run := ExceptT Fault (StateM Session)

namespace Session

def exhausted : Fault :=
  .failed .query "no reply is left"

def ask (statement : Statement) : Run (List Record) :=
  ExceptT.mk fun session =>
    let statements := session.statements ++ [statement]
    match session.replies with
    | [] => (.error exhausted, { replies := [], statements })
    | .fault f :: rest => (.error f, { replies := rest, statements })
    | .rows records :: rest => (.ok records, { replies := rest, statements })

def decoded {α : Type} (x : Except Fault α) : Run α :=
  ExceptT.mk (pure x)

end Session

def undecodable : Fault :=
  .failed .type "a row does not decode"

/-- A row needs an integer id and a textual name; a note that is no text is left out. -/
def Row.ofRecord (record : Record) : Except Fault Row :=
  match record.get? "id", record.get? "name" with
  | some (.integer id), some (.text name) =>
    .ok
      { id, name
        note := match record.get? "note" with
          | some (.text note) => some note
          | _ => none }
  | _, _ => .error undecodable

/-- The entry of the column that comes first by name. -/
def firstColumn? : List (String × Cell) → Option (String × Cell)
  | [] => none
  | entry :: rest =>
    match firstColumn? rest with
    | none => some entry
    | some other => if other.1 < entry.1 then some other else some entry

/-- A count is the first column of the first row; no row and a negative count mean zero. -/
def countOf : List Record → Except Fault UInt64
  | [] => .ok 0
  | record :: _ =>
    match firstColumn? record.entries with
    | some (_, .integer i) => .ok (UInt64.ofNat i.toInt.toNat)
    | _ => .error undecodable

end Listing
