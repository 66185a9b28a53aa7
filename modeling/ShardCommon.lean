import ShardCommon.Proof.AdoptedPlanes
import ShardCommon.Proof.BEEFTopics
import ShardCommon.Proof.BlockStrip
import ShardCommon.Proof.Bootstrap
import ShardCommon.Proof.BundlePipeline
import ShardCommon.Proof.BundleRelays
import ShardCommon.Proof.BundleRoundTrip
import ShardCommon.Proof.CacheCompaction
import ShardCommon.Proof.CacheExpiry
import ShardCommon.Proof.CacheReads
import ShardCommon.Proof.CacheRewrite
import ShardCommon.Proof.CacheTTL
import ShardCommon.Proof.ClaimSafety
import ShardCommon.Proof.ConsumerAgreement
import ShardCommon.Proof.ConsumerQuorum
import ShardCommon.Proof.EvaluatorHysteresis
import ShardCommon.Proof.EvaluatorIsolation
import ShardCommon.Proof.EvaluatorMirror
import ShardCommon.Proof.EvaluatorOrder
import ShardCommon.Proof.EvaluatorReports
import ShardCommon.Proof.EvaluatorShift
import ShardCommon.Proof.EvaluatorSuccessor
import ShardCommon.Proof.FleetCauses
import ShardCommon.Proof.FleetLeases
import ShardCommon.Proof.FrameFamily
import ShardCommon.Proof.GroupAddr
import ShardCommon.Proof.GroupForms
import ShardCommon.Proof.HostileStreams
import ShardCommon.Proof.JoinLimiter
import ShardCommon.Proof.LocalSetSafety
import ShardCommon.Proof.ManifestExtent
import ShardCommon.Proof.MarkQueue
import ShardCommon.Proof.Multicast
import ShardCommon.Proof.ObjectReader
import ShardCommon.Proof.PayloadRoundTrip
import ShardCommon.Proof.PlaneGroups
import ShardCommon.Proof.Planes
import ShardCommon.Proof.Pow
import ShardCommon.Proof.PushLanes
import ShardCommon.Proof.Sequence
import ShardCommon.Proof.SizeLaw
import ShardCommon.Proof.SuccessorDates
import ShardCommon.Proof.TeeWire
import ShardCommon.Proof.Throttle
