import WavesNode.Account
import WavesNode.ActionSequences
import WavesNode.ActiveLeases
import WavesNode.AddressTransactions
import WavesNode.AffectedAddresses
import WavesNode.AssetDistributions
import WavesNode.BalanceDiffValidation
import WavesNode.BalanceRanges
import WavesNode.BalanceStability
import WavesNode.Base58
import WavesNode.BasicMessagesRepo
import WavesNode.BigEndian
import WavesNode.BigInteger
import WavesNode.BindingTypes
import WavesNode.Bindings
import WavesNode.Block
import WavesNode.BlockDiffer
import WavesNode.BlockDifferSpecs
import WavesNode.BlockLimits
import WavesNode.BlockRewards
import WavesNode.Blockchain
import WavesNode.BlockchainUpdater
import WavesNode.ByteBuffer
import WavesNode.ByteBufferOps
import WavesNode.CacheCoherence
import WavesNode.CallBytes
import WavesNode.CommonValidation
import WavesNode.ComplexityAccounting
import WavesNode.CompositeBlockchain
import WavesNode.Consensus
import WavesNode.ContractSerDe
import WavesNode.ContractSpelling
import WavesNode.DataEntryCodec
import WavesNode.DatabaseKeys
import WavesNode.Debits
import WavesNode.Decoding
import WavesNode.DelayedValues
import WavesNode.Devnet
import WavesNode.Diff
import WavesNode.DiffRecords
import WavesNode.DuplicateIds
import WavesNode.Effects
import WavesNode.EncodedStore
import WavesNode.Environment
import WavesNode.EvaluatorV1
import WavesNode.EventRuns
import WavesNode.ExchangeConservation
import WavesNode.ExpressionCompiler
import WavesNode.Expressions
import WavesNode.FastBase58
import WavesNode.FeatureVoting
import WavesNode.FeeValidation
import WavesNode.FiniteMap
import WavesNode.FoldMacro
import WavesNode.ForgedBlocks
import WavesNode.FunctionComplexity
import WavesNode.GeneratingBalance
import WavesNode.History
import WavesNode.IndexFunctions
import WavesNode.InvocationAlias
import WavesNode.InvocationRecord
import WavesNode.InvokeScriptTransactionDiff
import WavesNode.JavaString
import WavesNode.LegacyFrameCodec
import WavesNode.LevelDBWriter
import WavesNode.LiquidChain
import WavesNode.LiquidView
import WavesNode.Long
import WavesNode.MatchCompilation
import WavesNode.MetaMapper
import WavesNode.MicroBlockSynchronizer
import WavesNode.NftListings
import WavesNode.NgCaches
import WavesNode.NgState
import WavesNode.Node
import WavesNode.Numbering
import WavesNode.Occurrences
import WavesNode.PBEncoding
import WavesNode.PBLossless
import WavesNode.PBStored
import WavesNode.PBTransactions
import WavesNode.Paging
import WavesNode.PaidFees
import WavesNode.PartSpelling
import WavesNode.PessimisticPortfolios
import WavesNode.Portfolio
import WavesNode.PureContext
import WavesNode.Radix
import WavesNode.Readers
import WavesNode.Regrouping
import WavesNode.RewardSchedule
import WavesNode.Rollback
import WavesNode.RollbackAssets
import WavesNode.RollbackFeatures
import WavesNode.RollbackLeases
import WavesNode.RxExtensionLoader
import WavesNode.RxScoreObserver
import WavesNode.Script
import WavesNode.ScriptReader
import WavesNode.ScriptResult
import WavesNode.ScriptSpelling
import WavesNode.Serde
import WavesNode.Settings
import WavesNode.Spelling
import WavesNode.SplitFunction
import WavesNode.StaticConstraints
import WavesNode.StdBase58
import WavesNode.StoredTransactions
import WavesNode.StoredUpdater
import WavesNode.StoredValues
import WavesNode.Terms
import WavesNode.Transaction
import WavesNode.TransactionBytes
import WavesNode.TransactionDiffSpecs
import WavesNode.TransactionDiffer
import WavesNode.TransactionDiffs
import WavesNode.TransactionParsers
import WavesNode.TxSerializers
import WavesNode.TxValidationError
import WavesNode.TxValidators
import WavesNode.TypeInferrer
import WavesNode.TypeOrder
import WavesNode.TypedObjects
import WavesNode.TypedValues
import WavesNode.Types
import WavesNode.UpdateEvents
import WavesNode.Utf8
import WavesNode.UtxPool
import WavesNode.Verifier
import WavesNode.Walks
import WavesNode.WavesTypes
import WavesNode.WireLayout
