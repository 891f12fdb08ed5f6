import SplitReserve.Amount
import SplitReserve.Json.Basic

/-!
# Deployment parameters

A configuration sets any of eleven parameters.  It is an object, whose other members are passed over, or an array of the first few
parameters in their order.  No parameter may be set twice; `null` stands for a parameter that may be missing, and for no other.
-/

namespace SplitReserve.Deployment

structure Config where
  /-- A reserve token that exists already. -/
  reserveToken : Option String
  reserveName : String
  reserveSymbol : String
  fName : String
  fSymbol : String
  xName : String
  xSymbol : String
  keeper : Option String
  oracle : Option String
  /-- The first price of the reserve, as it is reported. -/
  initialPrice : Option Nat
  outputPath : String

namespace Config

def standard : Config where
  reserveToken := none
  reserveName := "Leafsii Reserve"
  reserveSymbol := "lRSV"
  fName := "Leafsii Dollar"
  fSymbol := "fUSD"
  xName := "Leafsii Lever"
  xSymbol := "xLEV"
  keeper := none
  oracle := none
  initialPrice := none
  outputPath := "deployed.json"

/-- A value that may be `null`. -/
def nullable? {α : Type} (read : Json → Option α) : Json → Option (Option α)
  | .null => some none
  | v => (read v).map some

/-- A natural number that is a word. -/
def wordOf? (v : Json) : Option Nat := v.nat?.bind word?

/-- The parameters in order: the key of each, and how it is set. -/
def fields : List (String × (Config → Json → Option Config)) :=
  [("reserve_token", fun c v => do return { c with reserveToken := ← nullable? Json.string? v }),
    ("reserve_name", fun c v => do return { c with reserveName := ← v.string? }),
    ("reserve_symbol", fun c v => do return { c with reserveSymbol := ← v.string? }),
    ("f_name", fun c v => do return { c with fName := ← v.string? }),
    ("f_symbol", fun c v => do return { c with fSymbol := ← v.string? }),
    ("x_name", fun c v => do return { c with xName := ← v.string? }),
    ("x_symbol", fun c v => do return { c with xSymbol := ← v.string? }),
    ("keeper", fun c v => do return { c with keeper := ← nullable? Json.string? v }),
    ("oracle", fun c v => do return { c with oracle := ← nullable? Json.string? v }),
    ("initial_price", fun c v => do return { c with initialPrice := ← nullable? wordOf? v }),
    ("output_path", fun c v => do return { c with outputPath := ← v.string? })]

/-- Set the parameter with a given key, if there is one. -/
def setMember (c : Config) (m : String × Json) : Option Config :=
  match fields.lookup m.1 with
  | some set => set c m.2
  | none => some c

/-- Read a configuration. -/
def ofJson? : Json → Option Config
  | .object members => do
    let members ← members.mapM fun m => do return (← Json.Text.toString? m.1, m.2)
    let keys := (members.map Prod.fst).filter fun k => (fields.lookup k).isSome
    guard keys.Nodup
    members.foldlM setMember standard
  | .array items => do
    guard (items.length ≤ fields.length)
    (fields.zip items).foldlM (fun c f => f.1.2 c f.2) standard
  | _ => none

end Config

end SplitReserve.Deployment
