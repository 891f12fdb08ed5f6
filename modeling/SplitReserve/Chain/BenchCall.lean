import SplitReserve.Chain.Reply
import SplitReserve.Chain.Session

/-!
# Calls of benches

Each call reaches one register of the bench.  A bench announces nothing.
-/

namespace SplitReserve

namespace Bench

inductive Call
  | initRoles (admin : Address)
  | grant (role : Nat) (account : Address)
  | revoke (role : Nat) (account : Address)
  | settle (op : Operation) (fee bonus : Nat)
  | withdraw (amount : Nat)
  | startFeed (config : FeedConfig)
  | submit (raw seen now : Nat)
  | configure (config : FeedConfig)

/-- Carry out a call. -/
def Call.apply (b : Bench) : Call → Outcome (Bench × Reply)
  | .initRoles admin => do
    let roles ← b.roles.init admin
    return ({ b with roles }, .nothing)
  | .grant role account => do
    let (roles, changed) ← b.roles.grant role account
    return ({ b with roles }, .flag changed)
  | .revoke role account => do
    let (roles, changed) ← b.roles.revoke role account
    return ({ b with roles }, .flag changed)
  | .settle op fee bonus => do
    let treasury ← b.treasury.settle op fee bonus
    return ({ b with treasury }, .nothing)
  | .withdraw amount => do
    let treasury ← b.treasury.withdraw amount
    return ({ b with treasury }, .nothing)
  | .startFeed config => .ok ({ b with feed := PriceFeed.start config }, .nothing)
  | .submit raw seen now => do
    let feed ← b.feed.submit raw seen now
    return ({ b with feed }, .amounts b.feed.price feed.price)
  | .configure config => do
    let feed ← b.feed.configure config
    return ({ b with feed }, .nothing)

inductive Query
  | hasRole (role : Nat) (account : Address)
  | memberCount (role : Nat)
  | requireAdmin (account : Address)
  | requireKeeper (account : Address)
  | requireOracle (account : Address)
  | ensureCovered (bonus : Nat)
  | balance
  | collected
  | breakdown
  | price
  | seen
  | status (now : Nat)
  | fresh (now : Nat)
  | feedConfig

/-- A check answers nothing or fails. -/
def Query.answer (b : Bench) : Query → Outcome Reply
  | .hasRole role account => .ok (.flag (b.roles.hasRole role account))
  | .memberCount role => .ok (.number (b.roles.memberCount role))
  | .requireAdmin account => (b.roles.requireAdmin account).map fun _ => .nothing
  | .requireKeeper account => (b.roles.requireKeeper account).map fun _ => .nothing
  | .requireOracle account => (b.roles.requireOracle account).map fun _ => .nothing
  | .ensureCovered bonus => (b.treasury.ensureCovered bonus).map fun _ => .nothing
  | .balance => .ok (.amount b.treasury.balance)
  | .collected => .ok (.amount b.treasury.collected)
  | .breakdown => .ok (.treasury b.treasury)
  | .price => .ok (.amount b.feed.price)
  | .seen => .ok (.amount b.feed.seen)
  | .status now => .ok (.status (b.feed.status now))
  | .fresh now => (b.feed.fresh now).map .amount
  | .feedConfig => .ok (.feedConfig b.feed.config)

end Bench

end SplitReserve
