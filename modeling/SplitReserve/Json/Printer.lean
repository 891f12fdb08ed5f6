import SplitReserve.Json.Basic

/-!
# Printing JSON

`compact` writes a value on one line without blanks.  `pretty` gives every item and member a line of its own, two blanks deeper
than its container; an empty container stays on one line.
-/

namespace SplitReserve.Json

/-- A value for a text. -/
def ofString (s : String) : Json := text (Text.ofString s)

/-- An object with the given members. -/
def record (members : List (String × Json)) : Json := object (members.map fun m => (Text.ofString m.1, m.2))

mutual

def compact : Json → String
  | null => "null"
  | bool b => if b then "true" else "false"
  | number digits => String.ofList digits
  | text units => Text.quote units
  | array items => "[" ++ ",".intercalate (compactItems items) ++ "]"
  | object members => "\x7b" ++ ",".intercalate (compactMembers members) ++ "\x7d"

def compactItems : List Json → List String
  | [] => []
  | v :: rest => compact v :: compactItems rest

def compactMembers : List (List Nat × Json) → List String
  | [] => []
  | (key, v) :: rest => (Text.quote key ++ ":" ++ compact v) :: compactMembers rest

end

/-- Lines between two brackets. -/
def block (left right indent : String) (lines : List String) : String :=
  if lines.isEmpty then left ++ right
  else left ++ "\n" ++ ",\n".intercalate (lines.map fun l => indent ++ "  " ++ l) ++ "\n" ++ indent ++ right

mutual

/-- Print a value that stands at some indentation. -/
def prettyAt (indent : String) : Json → String
  | null => "null"
  | bool b => if b then "true" else "false"
  | number digits => String.ofList digits
  | text units => Text.quote units
  | array items => block "[" "]" indent (prettyItems (indent ++ "  ") items)
  | object members => block "\x7b" "\x7d" indent (prettyMembers (indent ++ "  ") members)

def prettyItems (indent : String) : List Json → List String
  | [] => []
  | v :: rest => prettyAt indent v :: prettyItems indent rest

def prettyMembers (indent : String) : List (List Nat × Json) → List String
  | [] => []
  | (key, v) :: rest => (Text.quote key ++ ": " ++ prettyAt indent v) :: prettyMembers indent rest

end

def pretty (v : Json) : String := prettyAt "" v

end SplitReserve.Json
