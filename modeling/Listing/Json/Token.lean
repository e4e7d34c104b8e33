import Listing.Numeric.Literal

/-!
Tokens of a JSON text. The scanner goes through the text once, one character at a time, and knows
only what it is in the middle of; it checks the form of literals and escapes, not what they mean.
-/

set_option autoImplicit false

namespace Listing.Json

open Numeric

/-- A piece of a string: a character, or the 16-bit unit that an escape `\uXXXX` names. -/
inductive Part
  | char (c : Char)
  | unit (code : Nat)
  deriving DecidableEq, Repr

inductive Leaf
  | null
  | bool (b : Bool)
  | number (literal : Literal)
  | string (parts : List Part)
  deriving DecidableEq, Repr

inductive Bracket
  | square
  | curly
  deriving DecidableEq, Repr

inductive Token
  | opening (b : Bracket)
  | closing (b : Bracket)
  | comma
  | colon
  | leaf (l : Leaf)
  deriving DecidableEq, Repr

/-- A number has an integer part without superfluous zeros, no plus sign in front, and digits
after its point if it has one. -/
def isNumber (l : Literal) : Bool :=
  l.sign != some .plus && !l.whole.isEmpty && (l.whole.length == 1 || l.whole.head? != some '0') &&
    l.fraction != some []

def Leaf.ofRun? (run : List Char) : Option Leaf :=
  if run = "null".toList then some .null
  else if run = "true".toList then some (.bool true)
  else if run = "false".toList then some (.bool false)
  else (Literal.read? run).bind fun l => if isNumber l then some (.number l) else none

def isSpace (c : Char) : Bool :=
  c == ' ' || c == '\t' || c == '\n' || c == '\r'

def punctuation? : Char → Option Token
  | '[' => some (.opening .square)
  | ']' => some (.closing .square)
  | '\x7b' => some (.opening .curly)
  | '\x7d' => some (.closing .curly)
  | ',' => some .comma
  | ':' => some .colon
  | _ => none

def simpleEscape? : Char → Option Char
  | '"' => some '"'
  | '\\' => some '\\'
  | '/' => some '/'
  | 'b' => some '\x08'
  | 'f' => some '\x0C'
  | 'n' => some '\n'
  | 'r' => some '\r'
  | 't' => some '\t'
  | _ => none

/-- What the scanner is in the middle of; what it has collected is in reverse order. -/
inductive Mode
  | between
  | run (chars : List Char)
  | string (parts : List Part)
  | escape (parts : List Part)
  | unit (parts : List Part) (code digits : Nat)
  deriving DecidableEq, Repr

def startToken (c : Char) : List Token × Mode :=
  if isSpace c then ([], .between)
  else if c == '"' then ([], .string [])
  else match punctuation? c with
    | some t => ([t], .between)
    | none => ([], .run [c])

def endsRun (c : Char) : Bool :=
  isSpace c || c == '"' || (punctuation? c).isSome

def finishRun? (chars : List Char) : Option (List Token) :=
  (Leaf.ofRun? chars.reverse).map fun l => [.leaf l]

/-- The tokens that one character completes, and the mode after it. Control characters have no
place in a string. -/
def Mode.step? : Mode → Char → Option (List Token × Mode)
  | .between, c => some (startToken c)
  | .run chars, c =>
    if endsRun c then
      (finishRun? chars).map fun ts => (ts ++ (startToken c).1, (startToken c).2)
    else some ([], .run (c :: chars))
  | .string parts, c =>
    if c == '"' then some ([.leaf (.string parts.reverse)], .between)
    else if c == '\\' then some ([], .escape parts)
    else if c.toNat < 0x20 then none
    else some ([], .string (.char c :: parts))
  | .escape parts, c =>
    if c == 'u' then some ([], .unit parts 0 0)
    else (simpleEscape? c).map fun e => ([], .string (.char e :: parts))
  | .unit parts code digits, c =>
    (hexValue? c).map fun h =>
      let code := code * 16 + h
      ([], if digits = 3 then .string (.unit code :: parts) else .unit parts code (digits + 1))

def Mode.finish? : Mode → Option (List Token)
  | .between => some []
  | .run chars => finishRun? chars
  | _ => none

def scanFrom? (mode : Mode) : List Char → Option (List Token)
  | [] => mode.finish?
  | c :: rest => do
    let (written, mode) ← mode.step? c
    let tokens ← scanFrom? mode rest
    return written ++ tokens

def scan? (s : List Char) : Option (List Token) :=
  scanFrom? .between s

end Listing.Json
