import TrafficIndicator.Main
import TrafficIndicator.Rate.Label
import TrafficIndicator.Station.Observer
import TrafficIndicator.Time.Scale
import TrafficIndicator.Timer.Script
import TrafficIndicator.Proofs.Activity
import TrafficIndicator.Proofs.TimerQueue
import TrafficIndicator.Proofs.TimerSlots
import TrafficIndicator.Proofs.RateLabel
import TrafficIndicator.Proofs.Reactions
import TrafficIndicator.Proofs.Handlers
import TrafficIndicator.Proofs.PanelOperations
import TrafficIndicator.Proofs.ScreenInvariant
import TrafficIndicator.Proofs.Heartbeat
import TrafficIndicator.Proofs.JsonObjects
import TrafficIndicator.Proofs.SettingsWatch
import TrafficIndicator.Proofs.SettingsDeliveries
import TrafficIndicator.Proofs.SettingsHistory
import TrafficIndicator.Proofs.QueueHistory
import TrafficIndicator.Proofs.SlotHistory
import TrafficIndicator.Proofs.ScriptHistory
import TrafficIndicator.Proofs.Emissions
import TrafficIndicator.Proofs.PanelEvents
import TrafficIndicator.Proofs.ScreenHistory
import TrafficIndicator.Proofs.FailedTick
import TrafficIndicator.Proofs.ScreenSafety
import TrafficIndicator.Proofs.SampleHistory
import TrafficIndicator.Proofs.JsonLimits
import TrafficIndicator.Proofs.SettingsReading
import TrafficIndicator.Proofs.WatchLedger
import TrafficIndicator.Proofs.WatchHistory
import TrafficIndicator.Proofs.SharedLoop
import TrafficIndicator.Proofs.Detached
import TrafficIndicator.Proofs.Course
import TrafficIndicator.Proofs.Debounce
import TrafficIndicator.Proofs.TickSpacing
import TrafficIndicator.Proofs.Lockstep
import TrafficIndicator.Proofs.TwinLoops
import TrafficIndicator.Proofs.FreshStart
import TrafficIndicator.Proofs.Commands
import TrafficIndicator.Proofs.ScreenCourse
import TrafficIndicator.Proofs.TintHistory
import TrafficIndicator.Proofs.ScreenFrames
import TrafficIndicator.Proofs.HeldPolls
import TrafficIndicator.Proofs.CleanExit
import TrafficIndicator.Proofs.FailedAttach
import TrafficIndicator.Proofs.Numerals
import TrafficIndicator.Proofs.LabelRounding
import TrafficIndicator.Proofs.LabelWidth
import TrafficIndicator.Proofs.KernelCounters
import TrafficIndicator.Proofs.Deferral
import TrafficIndicator.Proofs.DueRuns
import TrafficIndicator.Proofs.OverdueCallbacks
import TrafficIndicator.Proofs.WorkingPrecision
import TrafficIndicator.Proofs.LabelOrder
import TrafficIndicator.Proofs.RoundedTime
import TrafficIndicator.Proofs.SamplerChain
import TrafficIndicator.Proofs.SignalWatch
import TrafficIndicator.Proofs.SignalHistory
import TrafficIndicator.Proofs.CounterTotals
import TrafficIndicator.Proofs.CounterTable
import TrafficIndicator.Proofs.LoopDeeds
import TrafficIndicator.Proofs.RunProgress
import TrafficIndicator.Proofs.RenderPasses
import TrafficIndicator.Proofs.AttachFlash
import TrafficIndicator.Proofs.EntryBatch
import TrafficIndicator.Proofs.IntegerNumerals
import TrafficIndicator.Proofs.LogThresholds
import TrafficIndicator.Proofs.InterfaceScan
import TrafficIndicator.Proofs.SettingValues
import TrafficIndicator.Proofs.FixedNotation
