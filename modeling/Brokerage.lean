import Brokerage.Transition
import Brokerage.TaskPool
import Brokerage.Dict
import Brokerage.Text
import Brokerage.TextLines
import Brokerage.JsonText
import Brokerage.CostModel
import Brokerage.Domain
import Brokerage.PaperEngine
import Brokerage.PaperLedger
import Brokerage.WebSocketHub
import Brokerage.PaperBroadcast
import Brokerage.OstiumClient
import Brokerage.LiveGuards
import Brokerage.OstiumAdapter
import Brokerage.TradingCore
import Brokerage.TickRecorder
import Brokerage.RebuildCandles
import Brokerage.TradingCalls
import Brokerage.SinglePosition
import Brokerage.Reconcile
import Brokerage.ListingFailure
import Brokerage.OperationService
import Brokerage.OrderClose
import Brokerage.OrderOpen
import Brokerage.OperationTasks
import Brokerage.OperationLog
import Brokerage.OperationRecords
import Brokerage.PositionsResponse
import Brokerage.CloseById
import Brokerage.Calendar
import Brokerage.PriceBars
import Brokerage.Rises
import Brokerage.CsvStore
import Brokerage.CandleBuilder
import Brokerage.GapValidator
import Brokerage.Spans
import Brokerage.MissingRanges
import Brokerage.Raising
import Brokerage.OstiumIngest
import Brokerage.IngestClosedMinutes
import Brokerage.IngestLateTicks
import Brokerage.CandleSeries
import Brokerage.LiveFeed
import Brokerage.SharedStore
import Brokerage.Bi5Records
import Brokerage.DataLayerWrites
import Brokerage.CursorPages
import Brokerage.MixedOhlcv
import Brokerage.Backfill
import Brokerage.LatestRows
import Brokerage.CandleStitching
import Brokerage.GridWindow
import Brokerage.QualityGate
import Brokerage.HubReplay
import Brokerage.HubMaps
import Brokerage.HubTasks
import Brokerage.HubOrder
import Brokerage.CoverageIndex
import Brokerage.SyncManager
import Brokerage.SyncAccounting
import Brokerage.SyncCompleteness
import Brokerage.CoverageRebuild
import Brokerage.Crashes
import Brokerage.RawSync
import Brokerage.RawSyncCrashes
import Brokerage.ParquetReaders
import Brokerage.Bi5Ticks
import Brokerage.StableSort
import Brokerage.Bi5Range
import Brokerage.DukascopyCache
import Brokerage.UtcRange
import Brokerage.Rollover
import Brokerage.RolloverSplit
import Brokerage.ParquetRange
import Brokerage.WallClock
import Brokerage.MarketHours
import Brokerage.NextOpening
import Brokerage.Fx245
import Brokerage.GateMetrics
import Brokerage.GateRecovery
import Brokerage.SltpStore
import Brokerage.LabBacktest
import Brokerage.LabTrades
import Brokerage.RangePages
import Brokerage.LabFetch
import Brokerage.OptionLoops
import Brokerage.SimpleBacktests
import Brokerage.RiskCheck
import Brokerage.LiquidationPrice
import Brokerage.ReadThrough
import Brokerage.PollBackoff
import Brokerage.ClosedTime
import Brokerage.SyncProgress
import Brokerage.Gather
import Brokerage.LabBars
import Brokerage.EntryGating
import Brokerage.HoldingTime
import Brokerage.CompatReport
import Brokerage.PageHeaders
import Brokerage.PeriodicCounts
import Brokerage.ExpectedBars
import Brokerage.ReconcilePartition
import Brokerage.ReconcileRuns
import Brokerage.ServiceManager
import Brokerage.OhlcvIntegrity
import Brokerage.Smoothing
import Brokerage.Indicators
import Brokerage.RunningPeak
import Brokerage.Drawdowns
import Brokerage.Resuming
import Brokerage.HistoricalBackfill
import Brokerage.TicksBuild
import Brokerage.CalendarAgreement
import Brokerage.StartupGate
import Brokerage.MonthRepair
import Brokerage.Dialogue
import Brokerage.LiveTrade
import Brokerage.PaperTrade
