import DlmmIndexer.Retry
import DlmmIndexer.Reserves
import DlmmIndexer.Liquidity
import DlmmIndexer.SwapVaults
import DlmmIndexer.Library.Machine
import DlmmIndexer.Library.Unindexed
import DlmmIndexer.Scanner.Chain
import DlmmIndexer.Scanner.Service
import DlmmIndexer.Scanner.Backward
import DlmmIndexer.Scanner.Forward
import DlmmIndexer.Scanner.StoredOrder
import DlmmIndexer.Scanner.Unique
import DlmmIndexer.Ledger
import DlmmIndexer.LostUpdate
import DlmmIndexer.LatestState
import DlmmIndexer.Library.Calls
import DlmmIndexer.Winner
import DlmmIndexer.PositionCreation
import DlmmIndexer.Library.Queue
import DlmmIndexer.PositionRace
import DlmmIndexer.Scanner.Completeness
import DlmmIndexer.Transactions.LiquidityBook
import DlmmIndexer.Transactions.Router
import DlmmIndexer.Transactions.Dispatch
import DlmmIndexer.Transactions.Extraction
import DlmmIndexer.Transactions.Processor
import DlmmIndexer.Transactions.ExactlyOnce
import DlmmIndexer.Transactions.Settlement
import DlmmIndexer.Library.StrictSchema
import DlmmIndexer.Transactions.DeadLetter
import DlmmIndexer.Movement
import DlmmIndexer.Closing
import DlmmIndexer.Increase
import DlmmIndexer.Rejection
import DlmmIndexer.QuoteAssetStatus
import DlmmIndexer.BinArrayRetry
import DlmmIndexer.BinArrays
import DlmmIndexer.InnerSwaps
import DlmmIndexer.Library.NumberText
import DlmmIndexer.ProtocolFees
import DlmmIndexer.SwapReserves
import DlmmIndexer.PairRetry
import DlmmIndexer.InstructionRow
import DlmmIndexer.AccountCreator
import DlmmIndexer.Scanner.Backlog
import DlmmIndexer.BinPrices
import DlmmIndexer.Library.Numeral
import DlmmIndexer.NormalizedAmounts
import DlmmIndexer.CompositeIds
import DlmmIndexer.References
import DlmmIndexer.Library.Growth
import DlmmIndexer.Library.Guarantee
import DlmmIndexer.Permanence
import DlmmIndexer.Duplicates
import DlmmIndexer.Library.Footprint
import DlmmIndexer.Library.Serial
import DlmmIndexer.Isolation
import DlmmIndexer.Library.Tables
import DlmmIndexer.Market
import DlmmIndexer.Refinement
import DlmmIndexer.DeliveryOrder
import DlmmIndexer.Library.EventLoop
import DlmmIndexer.Scanner.Tasks
import DlmmIndexer.Scanner.Overlap
import DlmmIndexer.Library.Success
import DlmmIndexer.Prerequisites
import DlmmIndexer.Traces
import DlmmIndexer.Pipeline
import DlmmIndexer.Marks
