import SplitReserve.PriceFeed
import SplitReserve.Roles
import SplitReserve.Treasury

/-!
# The bench

A bench holds the three registers of a protocol, a table of roles, a treasury and a price feed, and lets anyone drive each of
them by itself.  A new bench has no admin, an empty treasury and no price.
-/

namespace SplitReserve

structure Bench where
  roles : Roles
  treasury : Treasury
  feed : PriceFeed

namespace Bench

def init : Bench := ⟨default, Treasury.empty, PriceFeed.start FeedConfig.standard⟩

end Bench

end SplitReserve
