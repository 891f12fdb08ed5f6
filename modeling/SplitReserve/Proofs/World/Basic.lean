import Mathlib.Logic.Function.Basic
import SplitReserve.Launch
import SplitReserve.Proofs.Pool.Rewards
import SplitReserve.Proofs.Protocol.Trade
import SplitReserve.Proofs.Session
import SplitReserve.Proofs.Token

/-!
# Worlds

A `World` is a launch taken apart: its three tokens, its protocol and its pool.  `World.chain` puts it together again, at the
addresses of `Launch`.  This module says how such a chain is read and written, so that a call can be followed step by step; the
last section gives what the pool is owed and what a call of a token does.
-/

namespace SplitReserve

/-! ### Worlds -/

/-- The tokens of a launch. -/
inductive Coin
  | reserve
  | f
  | x
  deriving DecidableEq

def Coin.address : Coin → Address
  | reserve => Launch.reserveToken
  | f => Launch.fToken
  | x => Launch.xToken

def Leg.coin : Leg → Coin
  | f => .f
  | x => .x

@[simp] theorem Leg.coin_ne_reserve (leg : Leg) : leg.coin ≠ .reserve := by
  cases leg <;> decide

@[simp] theorem Leg.coin_inj {l m : Leg} : l.coin = m.coin ↔ l = m := by
  cases l <;> cases m <;> decide

structure World where
  clock : Nat
  coin : Coin → Token
  protocol : Protocol
  pool : Pool

theorem Coin.address_inj {k l : Coin} : k.address = l.address ↔ k = l := by
  cases k <;> cases l <;> decide +kernel

theorem Coin.address_ne_protocol (k : Coin) : k.address ≠ Launch.protocol := by
  cases k <;> decide +kernel

theorem Coin.address_ne_pool (k : Coin) : k.address ≠ Launch.pool := by
  cases k <;> decide +kernel

theorem Launch.protocol_ne_pool : Launch.protocol ≠ Launch.pool := by decide +kernel

theorem Launch.fToken_ne_reserveToken : Launch.fToken ≠ Launch.reserveToken := by decide +kernel

/-! ### Accounts and links -/

/-- Accounts are not contracts. -/
def Address.IsAccount : Address → Prop
  | account _ => True
  | contract _ => False

theorem Address.IsAccount.ne_protocol {a : Address} (h : a.IsAccount) : a ≠ Launch.protocol := by
  rintro rfl
  exact h

theorem Address.IsAccount.ne_pool {a : Address} (h : a.IsAccount) : a ≠ Launch.pool := by
  rintro rfl
  exact h

/-- The protocol has the tokens and the pool of the launch. -/
structure Protocol.Linked (p : Protocol) : Prop where
  reserveToken : p.reserveToken = Coin.reserve.address
  token : ∀ leg, p.token leg = leg.coin.address
  pool : p.pool = some Launch.pool

/-- The pool has the stable token and the protocol of the launch. -/
structure Pool.Linked (p : Pool) : Prop where
  token : p.token = Coin.f.address
  controller : p.controller = some Launch.protocol

/-- The contracts know each other. -/
structure World.Linked (w : World) : Prop where
  protocol : w.protocol.Linked
  pool : w.pool.Linked

theorem Pool.Rewrites.linked {p p' : Pool} {a : Address} {s : Position} (h : Rewrites p p' a s) (hp : p.Linked) :
    p'.Linked := ⟨h.token.trans hp.token, h.controller.trans hp.controller⟩

theorem Pool.Accrues.linked {p p' : Pool} {amount delta : Nat} (h : Accrues p p' amount delta) (hp : p.Linked) :
    p'.Linked := ⟨h.token.trans hp.token, h.controller.trans hp.controller⟩

/-- What a trade writes leaves the links as they are. -/
theorem Protocol.Linked.traded {p : Protocol} (hp : p.Linked) (treasury : Treasury) (reserve : Nat) (leg : Leg) (n : Nat) :
    ({ p with treasury, reserve }.setSupply leg n).Linked := by
  obtain ⟨hreserve, htoken, hpool⟩ := hp
  refine ⟨?_, ?_, ?_⟩
  · rwa [reserveToken_setSupply]
  · intro l
    rw [token_setSupply, ← htoken l]
    cases l <;> rfl
  · rwa [pool_setSupply]

theorem Protocol.Mints.linked {p p' : Protocol} {owed : Nat} {leg : Leg} {amount : Nat} {q : Priced}
    (h : Mints p p' owed leg amount q) (hp : p.Linked) : p'.Linked := by
  rw [h.books]
  exact hp.traded _ _ _ _

theorem Protocol.Redeems.linked {p p' : Protocol} {owed : Nat} {leg : Leg} {amount : Nat} {q : Priced}
    (h : Redeems p p' owed leg amount q) (hp : p.Linked) : p'.Linked := by
  rw [h.books]
  exact hp.traded _ _ _ _

/-- The calls that leave the contracts connected and the money of the protocol in its place: nobody is made a minter, or
ceases to be one, and nobody burns the reserve tokens of the protocol. -/
def Call.Permitted (target : Address) : Call → Prop
  | .token c => ¬ c.Managing ∧ (target = Launch.reserveToken → ∀ n, c ≠ .burnFrom Launch.protocol n)
  | .protocol c => ∀ a, c ≠ .setPool a
  | .pool c => ∀ a, c ≠ .setController a
  | .bench _ => True

namespace World

variable {w : World} {k : Coin} {es : List (Address × Event)}

/-- The contracts of a world, deployed in order. -/
def chain (w : World) : Chain where
  clock := w.clock
  contracts := [(Coin.reserve.address, .token (w.coin .reserve)), (Coin.f.address, .token (w.coin .f)),
    (Coin.x.address, .token (w.coin .x)), (Launch.protocol, .protocol w.protocol), (Launch.pool, .pool w.pool)]

/-- The clock in seconds. -/
def now (w : World) : Nat := w.clock / 1000

/-- Nothing of a world is lost in its chain. -/
theorem chain_inj {v : World} : v.chain = w.chain ↔ v = w := by
  refine ⟨fun h => ?_, congrArg _⟩
  obtain ⟨clock, coin, protocol, pool⟩ := v
  obtain ⟨clock', coin', protocol', pool'⟩ := w
  simp only [chain, Chain.mk.injEq, List.cons.injEq, Prod.mk.injEq, Contract.token.injEq, Contract.protocol.injEq,
    Contract.pool.injEq, true_and, and_true] at h
  obtain ⟨rfl, hr, hf, hx, rfl, rfl⟩ := h
  have hcoin : coin = coin' := by
    funext c
    cases c <;> assumption
  rw [hcoin]

def setCoin (w : World) (k : Coin) (t : Token) : World := { w with coin := Function.update w.coin k t }

def setProtocol (w : World) (p : Protocol) : World := { w with protocol := p }

def setPool (w : World) (p : Pool) : World := { w with pool := p }

@[simp] theorem coin_setCoin (w : World) (k l : Coin) (t : Token) :
    (w.setCoin k t).coin l = if l = k then t else w.coin l := Function.update_apply _ _ _ _

/-- The reserve token is neither leg. -/
theorem coin_setReserve (w : World) (t : Token) (leg : Leg) : (w.setCoin .reserve t).coin leg.coin = w.coin leg.coin := by
  rw [coin_setCoin, if_neg leg.coin_ne_reserve]

@[simp] theorem protocol_setCoin (w : World) (k : Coin) (t : Token) : (w.setCoin k t).protocol = w.protocol := rfl

@[simp] theorem pool_setCoin (w : World) (k : Coin) (t : Token) : (w.setCoin k t).pool = w.pool := rfl

@[simp] theorem coin_setProtocol (w : World) (p : Protocol) : (w.setProtocol p).coin = w.coin := rfl

@[simp] theorem protocol_setProtocol (w : World) (p : Protocol) : (w.setProtocol p).protocol = p := rfl

@[simp] theorem pool_setProtocol (w : World) (p : Protocol) : (w.setProtocol p).pool = w.pool := rfl

@[simp] theorem coin_setPool (w : World) (p : Pool) : (w.setPool p).coin = w.coin := rfl

@[simp] theorem protocol_setPool (w : World) (p : Pool) : (w.setPool p).protocol = w.protocol := rfl

@[simp] theorem pool_setPool (w : World) (p : Pool) : (w.setPool p).pool = p := rfl

/-! ### Reading and writing -/

theorem callee_coin (w : World) (k : Coin) : w.chain.callee k.address = .ok (.token (w.coin k)) := by
  have h : w.chain.find? k.address = some (.token (w.coin k)) := by
    cases k <;> simp [Chain.find?, chain, Coin.address_inj]
  rw [Chain.callee, h]

theorem callee_protocol (w : World) : w.chain.callee Launch.protocol = .ok (.protocol w.protocol) := by
  have h : w.chain.find? Launch.protocol = some (.protocol w.protocol) := by
    simp [Chain.find?, chain, Coin.address_ne_protocol]
  rw [Chain.callee, h]

theorem callee_pool (w : World) : w.chain.callee Launch.pool = .ok (.pool w.pool) := by
  have h : w.chain.find? Launch.pool = some (.pool w.pool) := by
    simp [Chain.find?, chain, Coin.address_ne_pool, Launch.protocol_ne_pool]
  rw [Chain.callee, h]

/-- There is nothing else on the chain. -/
theorem callee_ok {a : Address} {c : Contract} (h : w.chain.callee a = .ok c) :
    (∃ k : Coin, a = k.address ∧ c = .token (w.coin k)) ∨ (a = Launch.protocol ∧ c = .protocol w.protocol) ∨
      (a = Launch.pool ∧ c = .pool w.pool) := by
  have ha : a ∈ w.chain.contracts.map Prod.fst := by
    by_contra hn
    have hnone : w.chain.contracts.find? (fun e => e.1 = a) = none := by
      rw [List.find?_eq_none]
      intro e he hea
      exact hn (List.mem_map.2 ⟨e, he, by simpa using hea⟩)
    rw [Chain.callee, Chain.find?, hnone] at h
    cases h
  simp only [chain, List.map_cons, List.map_nil, List.mem_cons, List.not_mem_nil, or_false] at ha
  rcases ha with rfl | rfl | rfl | rfl | rfl
  · rw [callee_coin] at h; cases h; exact Or.inl ⟨_, rfl, rfl⟩
  · rw [callee_coin] at h; cases h; exact Or.inl ⟨_, rfl, rfl⟩
  · rw [callee_coin] at h; cases h; exact Or.inl ⟨_, rfl, rfl⟩
  · rw [callee_protocol] at h; cases h; exact Or.inr (Or.inl ⟨rfl, rfl⟩)
  · rw [callee_pool] at h; cases h; exact Or.inr (Or.inr ⟨rfl, rfl⟩)

theorem set_coin (w : World) (k : Coin) (t : Token) : w.chain.set k.address (.token t) = (w.setCoin k t).chain := by
  cases k <;>
    simp [Chain.set, chain, setCoin, Coin.address_inj, (Coin.address_ne_protocol _).symm, (Coin.address_ne_pool _).symm]

theorem set_protocol (w : World) (p : Protocol) :
    w.chain.set Launch.protocol (.protocol p) = (w.setProtocol p).chain := by
  simp [Chain.set, chain, setProtocol, Coin.address_ne_protocol, Launch.protocol_ne_pool.symm]

theorem set_pool (w : World) (p : Pool) : w.chain.set Launch.pool (.pool p) = (w.setPool p).chain := by
  simp [Chain.set, chain, setPool, Coin.address_ne_pool, Launch.protocol_ne_pool]

/-- A protocol whose pool is the pool of the world owes what that pool is owed. -/
theorem owed_eq (w : World) {p : Protocol} (h : p.pool = some Launch.pool) : w.chain.owed p = .ok w.pool.owed := by
  rw [Chain.owed, h]
  change w.chain.owedAt 5 Launch.pool = _
  rw [Chain.owedAt, callee_pool]
  rfl

theorem query_coin (w : World) (k : Coin) (q : Token.Query) :
    w.chain.query k.address (.token q) = .ok (q.answer (w.coin k)) := by
  rw [Chain.query, callee_coin]
  rfl

theorem query_protocol (w : World) (q : Protocol.Query) :
    w.chain.query Launch.protocol (.protocol q) = q.answer w.chain Launch.protocol w.protocol := by
  rw [Chain.query, callee_protocol]
  rfl

theorem query_pool (w : World) (q : Pool.Query) : w.chain.query Launch.pool (.pool q) = q.answer w.pool := by
  rw [Chain.query, callee_pool]
  rfl

theorem query_state (w : World) (h : w.protocol.pool = some Launch.pool) :
    w.chain.query Launch.protocol (.protocol .state) = .ok (.state (w.protocol.state w.pool.owed)) := by
  rw [query_protocol, Protocol.Query.answer, owed_eq w h, Outcome.map_ok]

theorem query_ratio (w : World) (h : w.protocol.pool = some Launch.pool) :
    w.chain.query Launch.protocol (.protocol .ratio) = .ok (.amount (w.protocol.state w.pool.owed).ratio) := by
  rw [query_protocol, Protocol.Query.answer, owed_eq w h, Outcome.map_ok]

theorem onToken_apply (entry : Entry) (act : Token → Outcome (Token × List Event)) :
    Work.onToken entry k.address act ⟨w.chain, es⟩ =
      act (w.coin k) >>= fun r => .ok ((), ⟨(w.setCoin k r.1).chain, es ++ r.2.map fun e => (k.address, e)⟩) := by
  simp only [Work.onToken, Work.commit, Work.bind_apply, Work.lift_apply, Work.chain_apply, Work.save_apply,
    Work.announce_apply, Outcome.ok_bind, bind_assoc, callee_coin, set_coin]

theorem onToken_ok {entry : Entry} {act : Token → Outcome (Token × List Event)} {u : Unit} {s : Session}
    (h : Work.onToken entry k.address act ⟨w.chain, es⟩ = .ok (u, s)) :
    ∃ t log, act (w.coin k) = .ok (t, log) ∧ s = ⟨(w.setCoin k t).chain, es ++ log.map fun e => (k.address, e)⟩ := by
  rw [onToken_apply, Outcome.bind_eq_ok] at h
  obtain ⟨⟨t, log⟩, ht, e⟩ := h
  cases e
  exact ⟨t, log, ht, rfl⟩

end World

end SplitReserve
