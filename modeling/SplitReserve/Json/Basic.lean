import SplitReserve.Json.Text
import SplitReserve.Json.Token

/-!
# JSON values

A reader takes the tokens one by one.  It holds the arrays and objects that are open, the innermost first, and what may come next.
Numbers keep the characters they were written with, and objects keep every member in its place, so whoever uses a value decides
which numbers it takes and what a repeated key means.
-/

namespace SplitReserve

inductive Json
  | null
  | bool (b : Bool)
  | number (digits : List Char)
  | text (units : List Nat)
  | array (items : List Json)
  | object (members : List (List Nat × Json))

namespace Json

/-- A container that is open, its contents in reverse; an object has the key of the member that is being read. -/
inductive Frame
  | array (items : List Json)
  | object (members : List (List Nat × Json)) (key : List Nat)

/-- What may come next.  A container that was just opened may be closed at once. -/
inductive Expect
  | value
  | firstItem
  | key
  | firstKey
  | colon
  /-- A comma, or the end of the innermost container. -/
  | more
  | nothing (result : Json)

structure Reader where
  stack : List Frame
  expect : Expect

namespace Reader

def start : Reader := ⟨[], .value⟩

/-- Put a finished value into the innermost container. -/
def put (v : Json) : List Frame → Reader
  | [] => ⟨[], .nothing v⟩
  | .array items :: rest => ⟨.array (v :: items) :: rest, .more⟩
  | .object members key :: rest => ⟨.object ((key, v) :: members) key :: rest, .more⟩

/-- Begin a value. -/
def begin (stack : List Frame) : Token → Option Reader
  | .null => some (put .null stack)
  | .bool b => some (put (.bool b) stack)
  | .number digits => some (put (.number digits) stack)
  | .text units => some (put (.text units) stack)
  | .openArray => some ⟨.array [] :: stack, .firstItem⟩
  | .openObject => some ⟨.object [] [] :: stack, .firstKey⟩
  | .closeArray | .closeObject | .comma | .colon => none

/-- Take one token. -/
def step (r : Reader) (t : Token) : Option Reader :=
  match r.expect, t, r.stack with
  | .firstItem, .closeArray, .array items :: rest => some (put (.array items.reverse) rest)
  | .firstItem, t, stack => begin stack t
  | .value, t, stack => begin stack t
  | .firstKey, .closeObject, .object members _ :: rest => some (put (.object members.reverse) rest)
  | .firstKey, .text key, .object members _ :: rest => some ⟨.object members key :: rest, .colon⟩
  | .key, .text key, .object members _ :: rest => some ⟨.object members key :: rest, .colon⟩
  | .colon, .colon, stack => some ⟨stack, .value⟩
  | .more, .comma, .array items :: rest => some ⟨.array items :: rest, .value⟩
  | .more, .comma, .object members key :: rest => some ⟨.object members key :: rest, .key⟩
  | .more, .closeArray, .array items :: rest => some (put (.array items.reverse) rest)
  | .more, .closeObject, .object members _ :: rest => some (put (.object members.reverse) rest)
  | _, _, _ => none

def finish (r : Reader) : Option Json :=
  match r.expect with
  | .nothing v => some v
  | _ => none

end Reader

/-- The value of a list of tokens. -/
def ofTokens? (ts : List Token) : Option Json := do
  let r ← ts.foldlM Reader.step Reader.start
  r.finish

/-- Read a text that holds one value and blanks. -/
def parse? (s : String) : Option Json := do
  let ts ← Token.ofChars? s.toList
  ofTokens? ts

/-! ### Parts of values -/

/-- The text of a value that is one. -/
def string? : Json → Option String
  | text units => Text.toString? units
  | _ => none

/-- A natural number written with digits alone. -/
def nat? : Json → Option Nat
  | number digits =>
    if digits.all isDigit then some (digits.foldl (fun n d => 10 * n + (d.toNat - 48)) 0) else none
  | _ => none

end Json

end SplitReserve
