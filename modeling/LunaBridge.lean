import LunaBridge.Gtpu.Delimitation
import LunaBridge.LinkController.DeliveryLaw
import LunaBridge.Live.Retention
import LunaBridge.Live.Rejection
import LunaBridge.Live.Replay
import LunaBridge.Live.Purging
import LunaBridge.Live.Draining
import LunaBridge.Scheduling.Deficits
import LunaBridge.Scheduling.Lapsed
import LunaBridge.Scheduling.Edf
import LunaBridge.Scheduling.Inversion
import LunaBridge.Scheduling.ListingOrder
import LunaBridge.Scheduling.Causality
import LunaBridge.Scheduling.Noninterference
import LunaBridge.Scheduling.Overtaking
import LunaBridge.Scheduling.Representation
import LunaBridge.Scheduling.Reuse
import LunaBridge.Analysis.MoreBuffer
import LunaBridge.Scheduling.AuditTrail
import LunaBridge.Scheduling.Reassignment
import LunaBridge.Scheduling.SkipOver
import LunaBridge.Scheduling.RoundFairness
import LunaBridge.Scheduling.LastWindow
import LunaBridge.Gateway.PeriodicPlan
import LunaBridge.LinkController.QosFlows
import LunaBridge.Live.Pacing
import LunaBridge.Gateway.SweepHarness
import LunaBridge.Analysis.CappedBuffer
import LunaBridge.Gateway.N6Interceptor
import LunaBridge.LinkController.BridgeFiles
import LunaBridge.Live.Reporting
import LunaBridge.Analysis.TraceScheduler
import LunaBridge.Gateway.TtlSweep
import LunaBridge.Analysis.LabelChecks
import LunaBridge.Analysis.AdmissibilityLaw
