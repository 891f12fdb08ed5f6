import SplitReserve.Deployment.Folder
import SplitReserve.Main
import SplitReserve.Proofs.Amount
import SplitReserve.Proofs.Failure
import SplitReserve.Proofs.Session
import SplitReserve.Proofs.Table
import SplitReserve.Proofs.Token
import SplitReserve.Proofs.Treasury
import SplitReserve.Proofs.Pool.Loss
import SplitReserve.Proofs.Pool.Rewards
import SplitReserve.Proofs.Pool.Accrual
import SplitReserve.Proofs.Pool.Worth
import SplitReserve.Proofs.Pool.ProRata
import SplitReserve.Proofs.Pool.Counts
import SplitReserve.Proofs.Protocol.Books
import SplitReserve.Proofs.Protocol.Trade
import SplitReserve.Proofs.Protocol.Execution
import SplitReserve.Proofs.World.Basic
import SplitReserve.Proofs.World.Move
import SplitReserve.Proofs.World.Sound
import SplitReserve.Proofs.World.Run
import SplitReserve.Proofs.Solvency
import SplitReserve.Proofs.Backing
import SplitReserve.Proofs.Cover
import SplitReserve.Proofs.Dilution
import SplitReserve.Proofs.RoundTrip
import SplitReserve.Proofs.Supply
import SplitReserve.Proofs.Holdings
import SplitReserve.Proofs.Rebalance
import SplitReserve.Proofs.Quotes
import SplitReserve.Proofs.Address
import SplitReserve.Proofs.Exchange
import SplitReserve.Proofs.Pool.Booking
import SplitReserve.Proofs.World.Act
import SplitReserve.Proofs.World.Census
import SplitReserve.Proofs.World.Relay
import SplitReserve.Proofs.Commute
import SplitReserve.Proofs.Leaving
import SplitReserve.Proofs.Roles
import SplitReserve.Proofs.Handled
import SplitReserve.Proofs.Entries
import SplitReserve.Proofs.Privilege
import SplitReserve.Proofs.Token.Run
import SplitReserve.Proofs.Token.Records
import SplitReserve.Proofs.Evolution
import SplitReserve.Proofs.PriceFeed
import SplitReserve.Proofs.Reports
import SplitReserve.Proofs.PoolSide
import SplitReserve.Proofs.Governance
import SplitReserve.Proofs.RebalanceOutcomes
import SplitReserve.Proofs.Deposits
import SplitReserve.Proofs.Conservation
import SplitReserve.Proofs.Calming
import SplitReserve.Proofs.Target
import SplitReserve.Proofs.Sheet
import SplitReserve.Proofs.Fees
import SplitReserve.Proofs.Rates
import SplitReserve.Proofs.PriceRange
