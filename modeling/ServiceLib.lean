import ServiceLib.Transition
import ServiceLib.HashMap
import ServiceLib.Runtime.Error
import ServiceLib.Store.RotatingMap
import ServiceLib.Decoder
import ServiceLib.Serde.Impl
import ServiceLib.Serde.RoundTrip
import ServiceLib.Kafka.Checkpoint
import ServiceLib.Datasource.ResultRouting
import ServiceLib.Operators.SubStream
import ServiceLib.Runtime.ServiceApp
import ServiceLib.BTreeMap
import ServiceLib.Linked
import ServiceLib.Pool.PendingQueue
import ServiceLib.Pool.QueuedPool
import ServiceLib.Pool.ExactlyOnce
import ServiceLib.Pool.CancelledFirst
import ServiceLib.Store.JoinStorage
import ServiceLib.Store.JoinExpiry
import ServiceLib.Kafka.CheckpointFailure
import ServiceLib.Kafka.Sink
import ServiceLib.Datasource.Concurrency
import ServiceLib.Kafka.ConsumeLoop
import ServiceLib.Datasource.PendingLive
import ServiceLib.Datasource.NestedDelivery
import ServiceLib.Runtime.Config
import ServiceLib.Datasource.GrpcLifecycle
import ServiceLib.Runtime.Starting
import ServiceLib.Pool.ExecutorSlots
import ServiceLib.Pool.PublishedSize
import ServiceLib.Datasink.Tonic
import ServiceLib.Runtime.Loader
import ServiceLib.Store.JoinTimers
import ServiceLib.Datasource.HttpLifecycle
import ServiceLib.Operators.Wiring
import ServiceLib.Runtime.Registration
import ServiceLib.Datasource.Cron
import ServiceLib.Datasource.CronFiring
import ServiceLib.Datasource.CronActivation
import ServiceLib.Runtime.Parallel
import ServiceLib.Store.JoinAdmission
import ServiceLib.Store.JoinRetry
import ServiceLib.Pool.QueueRefinement
import ServiceLib.Runtime.FailedStart
import ServiceLib.Serde.Sortable
import ServiceLib.Serde.Limits
import ServiceLib.Traced
import ServiceLib.Serde.Untrusted
import ServiceLib.Datasource.CallbackRetirement
import ServiceLib.Store.RotatingCapacity
import ServiceLib.Clock
import ServiceLib.Datasource.CronCatchUp
import ServiceLib.Datasource.PendingMetrics
import ServiceLib.Datasource.UnarySender
import ServiceLib.Runtime.Metadata
import ServiceLib.Execution
import ServiceLib.Pool.DelayPool
import ServiceLib.Runtime.Deadline
import ServiceLib.Datasource.ResultRouter
import ServiceLib.Operators.FanOut
import ServiceLib.Runtime.ConfigMerge
import ServiceLib.Datasource.CallbackStore
import ServiceLib.Runtime.Int64Gauge
import ServiceLib.Runtime.HttpMetrics
import ServiceLib.Runtime.GrpcMetrics
import ServiceLib.Datasink.ResponseBody
import ServiceLib.Serde.Registry
import ServiceLib.Store.JoinAccounting
import ServiceLib.PrefixCode
import ServiceLib.Runtime.Prometheus
import ServiceLib.Datasink.StreamSession
import ServiceLib.WorkList
import ServiceLib.Operators.Dataflow
import ServiceLib.Operators.Join
import ServiceLib.Gate
import ServiceLib.Kafka.SourceLifecycle
import ServiceLib.Channel
import ServiceLib.Kafka.LaneOrder
import ServiceLib.Datasink.SinkRequest
