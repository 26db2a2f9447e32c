import Graphene.Lib.KeyedFold
import Graphene.Lib.Checkpoints
import Graphene.Lib.Throwing
import Graphene.Db.ObjectDatabase
import Graphene.Db.UndoRefinement
import Graphene.Db.UndoSessions
import Graphene.Db.Script
import Graphene.Db.Code
import Graphene.Db.SideBySide
import Graphene.Db.SecondaryIndexes
import Graphene.Db.IndexKinds
import Graphene.Db.FailedModify
import Graphene.Chain.Block
import Graphene.Chain.ForkDatabase
import Graphene.Chain.BlockDatabase
import Graphene.Chain.Database
import Graphene.Chain.History
import Graphene.Chain.Sessions
import Graphene.Chain.Pending
import Graphene.Chain.Calls
import Graphene.Chain.PushBlock
import Graphene.Chain.Popping
import Graphene.Chain.ForkSwitch
import Graphene.Chain.Testnet
import Graphene.Chain.PendingInvariant
import Graphene.Chain.KnownBlocks
import Graphene.Chain.ForkHead
import Graphene.Chain.Transactions
import Graphene.Chain.AppliedOnce
import Graphene.Chain.Reorganised
import Graphene.Chain.Replay
import Graphene.Chain.Irreversible
import Graphene.Auth.Authority
import Graphene.Auth.Soundness
import Graphene.Auth.MoreApprovals
import Graphene.Proposals.Proposal
import Graphene.Proposals.MemberIndexes
import Graphene.Proposals.Evaluation
import Graphene.Proposals.Invariants
import Graphene.Proposals.Registered
import Graphene.Proposals.Review
import Graphene.Ledger.Fees
import Graphene.Ledger.Migration
import Graphene.Ledger.Budget
import Graphene.Ledger.Transfers
import Graphene.Ledger.Withdrawals
import Graphene.Lib.Transitions
import Graphene.Accounts.AccountEvaluator
import Graphene.Accounts.SpecialAuthorities
import Graphene.Lib.LinkedList
import Graphene.Accounts.Impacted
import Graphene.Accounts.AccountHistory
import Graphene.Lib.Consecutive
import Graphene.Net.Peer
import Graphene.Net.SyncNode
import Graphene.Net.SyncFrames
import Graphene.Net.SyncList
import Graphene.Net.SyncRequests
import Graphene.Net.SyncProcessing
import Graphene.Lib.Halving
import Graphene.Net.Synopsis
import Graphene.Lib.Codec
import Graphene.Lib.RecordFile
import Graphene.Chain.BlockFiles
import Graphene.Chain.BlockMap
import Graphene.Protocol.Extension
import Graphene.Ledger.FeeScaling
import Graphene.Chain.SlotTime
import Graphene.Lib.Table
import Graphene.Market.Prices
import Graphene.Market.Orders
import Graphene.Market.MarginCalls
import Graphene.Market.CoreInOrders
import Graphene.Market.Evaluator
import Graphene.Lib.ProRata
import Graphene.Market.GlobalSettlement
import Graphene.Market.QuietMarkets
import Graphene.Market.OrderBook
import Graphene.Market.OrdersLeft
import Graphene.Market.ExpiredOrders
import Graphene.Ledger.AddressChecksum
import Graphene.Chain.WitnessSchedule
import Graphene.Chain.DuplicateIndex
import Graphene.Auth.AddressTables
import Graphene.Auth.MinimalSignatures
import Graphene.Vesting.Policy
import Graphene.Vesting.CoinDays
import Graphene.Vesting.LazyDeposits
import Graphene.Chain.BlockLog
import Graphene.Chain.NonUndoable
import Graphene.Chain.Reindex
import Graphene.Lib.HashTree
import Graphene.Chain.MerkleRoot
import Graphene.Lib.ChunkedStream
import Graphene.Net.MessageFraming
import Graphene.Chain.ForkPoint
import Graphene.Chain.BlockSize
import Graphene.Vesting.LinearVesting
import Graphene.Vesting.Cashback
import Graphene.Vesting.FeeSplit
import Graphene.Lib.WeightedMedian
import Graphene.Voting.VoteCount
import Graphene.Ledger.FeeSchedule
import Graphene.Chain.BlockIds
import Graphene.Chain.Synopsis
import Graphene.Market.PriceOrder
import Graphene.Voting.VoteCounter
import Graphene.Protocol.AccountName
import Graphene.Market.CallPrice
import Graphene.Market.MedianFeed
import Graphene.Market.Matching
import Graphene.Market.ForceSettlements
import Graphene.Lib.IndexRange
import Graphene.Market.LiveOrders
import Graphene.Lib.DecimalString
import Graphene.Ledger.AmountStrings
import Graphene.Lib.OrderedIndex
import Graphene.Market.MarketHistory
import Graphene.Market.Buckets
import Graphene.Lib.Outputs
import Graphene.Lib.Tally
import Graphene.Ledger.Treasury
import Graphene.Ledger.Confidential
import Graphene.Ledger.Supplies
import Graphene.Ledger.BlindedBalances
import Graphene.Net.Inventory
import Graphene.Net.Requests
import Graphene.Net.Offers
import Graphene.Lib.FilledSlots
import Graphene.Chain.Production
import Graphene.Chain.WitnessPlugin
import Graphene.Lib.RingTable
import Graphene.Chain.ReferenceBlocks
import Graphene.Net.Handshake
import Graphene.Accounts.HistoryApi
import Graphene.Lib.RecordStream
import Graphene.Db.IndexFiles
import Graphene.Market.AssetUpdates
import Graphene.Market.AssetBacking
import Graphene.Market.FeedRuns
