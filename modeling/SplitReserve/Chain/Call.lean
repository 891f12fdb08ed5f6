import SplitReserve.Chain.BenchCall
import SplitReserve.Chain.ProtocolCall
import SplitReserve.Chain.TokenCall

/-!
# Calls

An account calls an entry of a contract.  A call that succeeds gives a receipt: the chain after it, the answer, and the events
that the contracts announced.  A call that fails gives the failure, and `Chain.apply` leaves the chain as it was.

A query reads and never changes anything.  A run is a list of steps, calls and spells of waiting, taken one after the other.
-/

namespace SplitReserve

/-- A call of an entry that may change its contract. -/
inductive Call
  | token (c : Token.Call)
  | protocol (c : Protocol.Call)
  | pool (c : Pool.Call)
  | bench (c : Bench.Call)

/-- A call of an entry that only reads. -/
inductive Query
  | token (q : Token.Query)
  | listing (q : Published.Query)
  | protocol (q : Protocol.Query)
  | pool (q : Pool.Query)
  | bench (q : Bench.Query)

/-- A successful call. -/
structure Receipt where
  chain : Chain
  reply : Reply
  /-- The events, grouped by contract in the order of deployment. -/
  events : List (Address × Event)

namespace Chain

open Work in
/-- Carry out a call by `caller` of the contract at `target`. -/
def run (caller target : Address) (call : Call) : Work Reply := do
  match ← (← chain).callee target, call with
  | .token t, .token c => do
    let (t, es) ← c.apply t caller
    commit target (.token t) es
    return c.reply
  | .listing t, .token c => do
    unless c.listed do throw .wrongKind
    let (t, es) ← c.apply t caller
    commit target (.listing t) es
    return c.reply
  | .protocol p, .protocol c => c.run target caller p
  | .pool p, .pool c => c.run target caller p
  | .bench b, .bench c => do
    let (b, reply) ← c.apply b
    save target (.bench b)
    return reply
  | _, _ => throw .wrongKind

/-- Events by contract in the order of deployment, and in the order of their announcement for each. -/
def grouped (c : Chain) (es : List (Address × Event)) : List (Address × Event) :=
  c.contracts.flatMap fun k => es.filter fun e => e.1 = k.1

def call (c : Chain) (caller target : Address) (call : Call) : Outcome Receipt := do
  let (reply, s) ← (run caller target call).run ⟨c, []⟩
  return ⟨s.chain, reply, c.grouped s.events⟩

/-- The chain after a call, whether it succeeds or not. -/
def apply (c : Chain) (caller target : Address) (call : Call) : Chain :=
  match c.call caller target call with
  | .ok r => r.chain
  | .error _ => c

def query (c : Chain) (target : Address) (query : Query) : Outcome Reply := do
  match ← c.callee target, query with
  | .token t, .token q => return q.answer t
  | .listing t, .listing q => return q.answer t.published
  | .protocol p, .protocol q => q.answer c target p
  | .pool p, .pool q => q.answer p
  | .bench b, .bench q => q.answer b
  | _, _ => throw .wrongKind

end Chain

/-- A step of a run: a call of an account, or some milliseconds in which nothing happens. -/
inductive Step
  | call (caller target : Address) (call : Call)
  | wait (ms : Nat)

namespace Chain

def step (c : Chain) : Step → Chain
  | .call caller target call => c.apply caller target call
  | .wait ms => (c.advance ms).toOption.getD c

/-- The chain after a run. -/
def after (c : Chain) (steps : List Step) : Chain := steps.foldl step c

theorem after_nil (c : Chain) : c.after [] = c := rfl

theorem after_append (c : Chain) (s t : List Step) : c.after (s ++ t) = (c.after s).after t := List.foldl_append

end Chain

end SplitReserve
