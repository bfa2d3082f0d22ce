import TradingPlatform.Base.Like
import TradingPlatform.Base.Register
import TradingPlatform.Gateway.BackfillCompleteness
import TradingPlatform.Gateway.ConflictResolution
import TradingPlatform.Gateway.CostAccounting
import TradingPlatform.Gateway.FlagConsistency
import TradingPlatform.Gateway.FillAccounting
import TradingPlatform.Gateway.GapClosing
import TradingPlatform.Gateway.PositionReconciliation
import TradingPlatform.Gateway.SingleBooking
import TradingPlatform.Gateway.TradeLedger
import TradingPlatform.Gateway.ReservationLeaks
import TradingPlatform.Risk.ReservationSafety
import TradingPlatform.Risk.BreakerSafety
import TradingPlatform.Risk.KillSwitchSafety
import TradingPlatform.Tax.WashSaleCapacity
import TradingPlatform.Console.SqlScoping
import TradingPlatform.Gateway.TwapResubmission
import TradingPlatform.Gateway.ModificationRecovery
import TradingPlatform.Gateway.GhostOrders
import TradingPlatform.Alerts.DeliveryLifecycle
import TradingPlatform.Data.FileLockExclusion
import TradingPlatform.Data.ManifestChain
import TradingPlatform.Data.BacktestLinks
import TradingPlatform.Data.FullEtl
import TradingPlatform.Data.SipPublication
import TradingPlatform.Data.WrdsCoverage
import TradingPlatform.Portfolio.StrategyCaps
import TradingPlatform.Backtest.JobStatus
import TradingPlatform.Models.Artifacts
import TradingPlatform.Models.PromotionHistory
import TradingPlatform.Auth.TokenRevocation
import TradingPlatform.Auth.RefreshRotation
import TradingPlatform.Auth.StoreConsistency
import TradingPlatform.Auth.TokenReplay
import TradingPlatform.Data.CasCollection
import TradingPlatform.Data.ManifestStack
import TradingPlatform.Portfolio.Direction
import TradingPlatform.Base.DecimalPlaces
import TradingPlatform.Tax.WashSaleTotals
import TradingPlatform.Tax.WashSaleRetries
import TradingPlatform.Base.Frames
import TradingPlatform.Data.CorporateActions
import TradingPlatform.Data.ReadTimeAdjustment
import TradingPlatform.Data.SplitFactors
import TradingPlatform.Data.CombinedAdjustment
import TradingPlatform.Base.SortedSet
import TradingPlatform.Limits.RateLimit
import TradingPlatform.Gateway.RiskReduction
import TradingPlatform.Gateway.ReduceOnly
import TradingPlatform.Base.Delimited
import TradingPlatform.Base.Fallible
import TradingPlatform.Gateway.SlicePlan
import TradingPlatform.Gateway.OrderIds
import TradingPlatform.Gateway.TradeReplay
import TradingPlatform.Messaging.FallbackBuffer
import TradingPlatform.Auth.SessionLimit
import TradingPlatform.Auth.AttemptLimit
import TradingPlatform.Gateway.UnconfirmedOrders
import TradingPlatform.Data.Quarantine
import TradingPlatform.Base.Attempt
import TradingPlatform.Data.PartitionMerge
import TradingPlatform.Base.Base64
import TradingPlatform.Auth.KeyRotation
import TradingPlatform.Console.AuditHistory
import TradingPlatform.Auth.IdpHealth
import TradingPlatform.Base.Months
import TradingPlatform.Backtest.WalkForward
import TradingPlatform.Base.Cartesian
import TradingPlatform.Backtest.ParamSearch
import TradingPlatform.Base.ClassPattern
import TradingPlatform.Console.ExportSanitizer
import TradingPlatform.Base.OrdinalRank
import TradingPlatform.Base.Scaling
import TradingPlatform.Alpha.SignalWeights
import TradingPlatform.Base.Cells
import TradingPlatform.Base.Bisection
import TradingPlatform.Backtest.CostModel
import TradingPlatform.Backtest.Capacity
import TradingPlatform.Backtest.DailyCosts
import TradingPlatform.Base.CellColumns
import TradingPlatform.Base.DatedFrames
import TradingPlatform.Alpha.AlphaCombiner
import TradingPlatform.Alpha.PitBacktester
import TradingPlatform.Base.Loops
import TradingPlatform.Portfolio.CapRedistribution
import TradingPlatform.Gateway.DailyPerformance
import TradingPlatform.Tax.HarvestingAdvice
import TradingPlatform.Base.Holders
import TradingPlatform.Data.QuoteSubscriptions
import TradingPlatform.Base.Interleaving
import TradingPlatform.Data.UniverseCaches
import TradingPlatform.Data.UniverseFreshness
import TradingPlatform.Models.ModelLoader
import TradingPlatform.Models.LoaderSafety
import TradingPlatform.Models.HotReload
import TradingPlatform.Base.RunLength
import TradingPlatform.Analytics.VpinBuckets
import TradingPlatform.Orchestrator.OrderMapping
import TradingPlatform.Base.Runs
import TradingPlatform.Data.CoverageAnalysis
import TradingPlatform.Gateway.OrphanQuarantine
import TradingPlatform.Gateway.PerformanceCache
