import Listing.Json.Token

/-!
Documents as written: the tree of a JSON text, with its literals and escapes unread and repeated
members kept. The reader takes one token at a time and keeps the containers still open on a
stack, so there is no bound on how deep a document may be.
-/

set_option autoImplicit false

namespace Listing.Json

inductive Tree
  | leaf (l : Leaf)
  | array (items : List Tree)
  | object (members : List (List Part × Tree))
  deriving Repr

/-- A container of which the part before the current item is read, in reverse order. -/
inductive Frame
  | array (items : List Tree)
  | object (members : List (List Part × Tree)) (name : List Part)
  deriving Repr

inductive Due
  | value
  | itemOrEnd
  | nameOrEnd
  | name (members : List (List Part × Tree))
  | colon (members : List (List Part × Tree)) (name : List Part)
  | after (t : Tree)
  deriving Repr

structure Reader where
  due : Due
  stack : List Frame
  deriving Repr

namespace Reader

def start : Reader :=
  { due := .value, stack := [] }

def beginValue? (stack : List Frame) : Token → Option Reader
  | .leaf l => some { due := .after (.leaf l), stack }
  | .opening .square => some { due := .itemOrEnd, stack }
  | .opening .curly => some { due := .nameOrEnd, stack }
  | _ => none

def afterValue? (t : Tree) : List Frame → Token → Option Reader
  | .array items :: stack, .comma => some { due := .value, stack := .array (t :: items) :: stack }
  | .array items :: stack, .closing .square =>
    some { due := .after (.array (t :: items).reverse), stack }
  | .object members name :: stack, .comma => some { due := .name ((name, t) :: members), stack }
  | .object members name :: stack, .closing .curly =>
    some { due := .after (.object ((name, t) :: members).reverse), stack }
  | _, _ => none

def readName? (members : List (List Part × Tree)) (stack : List Frame) : Token → Option Reader
  | .leaf (.string name) => some { due := .colon members name, stack }
  | _ => none

def step? (r : Reader) (token : Token) : Option Reader :=
  match r.due, token with
  | .value, _ => beginValue? r.stack token
  | .itemOrEnd, .closing .square => some { due := .after (.array []), stack := r.stack }
  | .itemOrEnd, _ => beginValue? (.array [] :: r.stack) token
  | .nameOrEnd, .closing .curly => some { due := .after (.object []), stack := r.stack }
  | .nameOrEnd, _ => readName? [] r.stack token
  | .name members, _ => readName? members r.stack token
  | .colon members name, .colon => some { due := .value, stack := .object members name :: r.stack }
  | .colon .., _ => none
  | .after t, _ => afterValue? t r.stack token

def finish? : Reader → Option Tree
  | { due := .after t, stack := [] } => some t
  | _ => none

end Reader

def Tree.ofTokens? (tokens : List Token) : Option Tree :=
  (tokens.foldlM Reader.step? Reader.start).bind Reader.finish?

def Tree.ofText? (s : List Char) : Option Tree :=
  (scan? s).bind Tree.ofTokens?

end Listing.Json
