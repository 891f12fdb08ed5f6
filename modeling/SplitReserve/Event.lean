import SplitReserve.Address
import SplitReserve.Fees

/-!
# Events

What contracts announce while they work.  Tokens announce every change of a balance or an allowance, a pool what happens to
its deposits and rewards, a protocol what happens to its books.
-/

namespace SplitReserve

inductive Event
  | transfer (sender recipient : Address) (amount : Nat)
  | approval (owner spender : Address) (amount : Nat)
  | mint (recipient : Address) (amount : Nat)
  | burn (holder : Address) (amount : Nat)
  | deposited (depositor : Address) (amount shares : Nat)
  | withdrawn (depositor : Address) (amount shares : Nat)
  | claimed (depositor : Address) (amount : Nat)
  | lossShared (burned payout scale index : Nat)
  | rewardsIndexed (amount index : Nat)
  | positionClosed (depositor : Address)
  | bootstrapped (admin : Address) (reserveIn mintedF mintedX : Nat)
  | minted (account : Address) (op : Operation) (level : Level) (reserveIn amountOut fee bonus : Nat)
  | redeemed (account : Address) (op : Operation) (level : Level) (amountIn reserveOut fee bonus : Nat)
  | priceUpdated (old new seen : Nat)
  | rebalanced (keeper : Address) (target burned payout ratioAfter : Nat)
  | yieldHarvested (keeper : Address) (amount bounty indexed : Nat)
  | recapitalized (admin : Address) (amount ratioAfter : Nat)
  | treasuryWithdrawn (recipient : Address) (amount : Nat)
  | feesChanged (admin : Address)
  | roleChanged (role : Nat) (account : Address) (granted : Bool)
  deriving DecidableEq

end SplitReserve
