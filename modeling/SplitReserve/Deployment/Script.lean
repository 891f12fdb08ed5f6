import SplitReserve.Address.Text
import SplitReserve.Chain.Call
import SplitReserve.Deployment.Config
import SplitReserve.Json.Printer

/-!
# Deployment

A deployment reads its configuration, deploys the tokens, the protocol and the pool on a new chain, connects them, and files
their addresses.  It reports each step on a line of its own.  What goes wrong ends it at once; the lines printed up to there stay.
-/

namespace SplitReserve.Deployment

/-- What may end a deployment early. -/
inductive Problem
  | readConfig
  | json
  | invalidAddress (text : String)
  | writeOutput
  /-- The chain refuses a call. -/
  | refused (f : Failure)
  deriving DecidableEq

namespace Problem

def message : Problem → String
  | readConfig => "cannot read the configuration"
  | json => "the configuration is not understood"
  | invalidAddress text => s!"invalid address {text}"
  | writeOutput => "cannot write the addresses"
  | refused (.fault f) => f.message
  | refused _ => "the chain stopped a call"

def exitCode : Problem → Nat
  | readConfig | json | invalidAddress _ | writeOutput => 1
  | refused _ => 101

end Problem

/-- Where a configuration comes from. -/
inductive Source
  | standard
  | unreadable
  | text (s : String)

/-- The state of a deployment: the chain, and the lines printed. -/
structure Progress where
  chain : Chain
  lines : List String

/-- A piece of a deployment; a problem keeps what was printed. -/
abbrev Script (α : Type) := ExceptT Problem (StateM Progress) α

namespace Script

def say (line : String) : Script Unit := modify fun p => { p with lines := p.lines ++ line.splitOn "\n" }

/-- Deploy a contract and learn its address. -/
def deploy (k : Contract) : Script Address := do
  let p ← get
  set { p with chain := p.chain.deploy k }
  return Address.ofOrdinal (p.chain.contracts.length + 1)

def call (caller target : Address) (c : Call) : Script Unit := do
  let p ← get
  match p.chain.call caller target c with
  | .ok r => set { p with chain := r.chain }
  | .error f => throw (.refused f)

def address (s : String) : Script Address :=
  match Address.ofText? s with
  | some a => return a
  | none => throw (.invalidAddress s)

def load : Source → Script Config
  | .standard => return Config.standard
  | .unreadable => throw .readConfig
  | .text s =>
    match (Json.parse? s).bind Config.ofJson? with
    | some c => return c
    | none => throw .json

def deployToken (deployer : Address) (name symbol : String) : Script Address := do
  say s!"Deploying {name} ({symbol})..."
  let a ← deploy (.token (Token.init name symbol 9 deployer))
  say s!"{symbol} deployed at: {a.report}"
  return a

end Script

/-- The addresses of a deployment. -/
structure Addresses where
  reserveToken : Address
  fToken : Address
  xToken : Address
  protocol : Address
  pool : Address

namespace Addresses

/-- The text of the file of addresses. -/
def filed (d : Addresses) : String :=
  (Json.record [("reserve_token", .ofString d.reserveToken.filed), ("f_token", .ofString d.fToken.filed),
    ("x_token", .ofString d.xToken.filed), ("protocol", .ofString d.protocol.filed),
    ("stability_pool", .ofString d.pool.filed)]).pretty

end Addresses

/-- A deployment up to the writing of its file: where the file goes, what is in it, and what is printed once it is written. -/
structure Written where
  path : String
  text : String
  closing : List String

open Script in
/-- The deployment itself. -/
def script (deployer : Address) (source : Source) : Script Written := do
  say "=== Leafsii Livenet Deployment ==="
  say ""
  let config ← load source
  let keeper ← config.keeper.mapM address
  let oracle ← config.oracle.mapM address
  let existing ← config.reserveToken.mapM address
  say s!"Deployer: {deployer.report}"
  say ""
  say "=== Phase 1: Deploying Tokens ==="
  say ""
  let reserveToken ←
    match existing with
    | some a => do
      say s!"Using existing reserve token at: {a.report}"
      pure a
    | none => deployToken deployer config.reserveName config.reserveSymbol
  let fToken ← deployToken deployer config.fName config.fSymbol
  let xToken ← deployToken deployer config.xName config.xSymbol
  say ""
  say "=== Phase 2: Deploying Protocol ==="
  say ""
  say "Deploying LeafsiiProtocol..."
  let protocol ← deploy (.protocol (Protocol.init deployer reserveToken fToken xToken))
  say s!"LeafsiiProtocol deployed at: {protocol.report}"
  say "Deploying StabilityPool..."
  let pool ← deploy (.pool (Pool.init fToken deployer))
  say s!"StabilityPool deployed at: {pool.report}"
  say ""
  say "=== Phase 3: Cross-contract Configuration ==="
  say ""
  say "Configuring LeafsiiProtocol <-> StabilityPool link..."
  call deployer protocol (.protocol (.setPool pool))
  call deployer pool (.pool (.setController protocol))
  say "Done."
  say "Authorizing LeafsiiProtocol as fToken/xToken minter..."
  call deployer fToken (.token (.addMinter protocol))
  call deployer xToken (.token (.addMinter protocol))
  say "Done."
  if let some keeper := keeper then
    say s!"Granting keeper role to {keeper.report}..."
    call deployer protocol (.protocol (.grantRole Role.keeper.number keeper))
  if let some oracle := oracle then
    say s!"Granting oracle role to {oracle.report}..."
    call deployer protocol (.protocol (.grantRole Role.oracle.number oracle))
  if let some price := config.initialPrice then
    say s!"Publishing initial price {price}..."
    call deployer protocol (.protocol (.updatePrice price (← get).chain.now))
    say "Done."
  say ""
  let addresses : Addresses := ⟨reserveToken, fToken, xToken, protocol, pool⟩
  return {
    path := config.outputPath
    text := addresses.filed
    closing := [
      "=== Deployment Complete ===",
      "",
      "Contract Addresses:",
      s!"  ReserveToken:    {reserveToken.report}",
      s!"  fToken:          {fToken.report}",
      s!"  xToken:          {xToken.report}",
      s!"  LeafsiiProtocol: {protocol.report}",
      s!"  StabilityPool:   {pool.report}",
      "",
      s!"Addresses written to {config.outputPath}",
      "Bootstrap with `bootstrap(initial_reserve)` once the reserve is approved."] }

/-- What comes of a deployment: all it prints, and the problem that ended it early. -/
structure Report where
  lines : List String
  problem : Option Problem

/-- Run a deployment on a new chain up to the writing of its file; the lines are those printed by then. -/
def run (deployer : Address) (source : Source) : Except Problem Written × List String :=
  let (result, p) := ((script deployer source).run).run ⟨Chain.empty, []⟩
  (result, p.lines)

/-- What comes of a deployment, when its file can be written as `writes` says. -/
def report (result : Except Problem Written × List String) (writes : Bool) : Report :=
  match result with
  | (.error e, lines) => ⟨lines, some e⟩
  | (.ok w, lines) =>
    if writes then ⟨lines ++ w.closing.flatMap (·.splitOn "\n"), none⟩ else ⟨lines, some .writeOutput⟩

end SplitReserve.Deployment
