import BoatRamp.Kv.Cached
import BoatRamp.Node.Ready
import BoatRamp.Node.Retention
import BoatRamp.Node.Payloads
import BoatRamp.Cluster.Delivery
import BoatRamp.Cluster.Lease
import BoatRamp.Cluster.Isolation
import BoatRamp.Cluster.Persist
import BoatRamp.Cluster.Agreement
import BoatRamp.Cluster.Sharding
import BoatRamp.Compute.Placement
import BoatRamp.Routing.Vary
import BoatRamp.Routing.Paths
import BoatRamp.Splice.Context
import BoatRamp.Auth.Cedar
import BoatRamp.Auth.Credential
import BoatRamp.Http2.FlowControl
import BoatRamp.Http2.Readiness
import BoatRamp.Http2.Responses
import BoatRamp.Http2.Table
import BoatRamp.Http2.Compression
import BoatRamp.Http1.Decoders
import BoatRamp.Proxy.Smuggling
import BoatRamp.Proxy.Responses
import BoatRamp.Access.Spellings
import BoatRamp.Deploy.Attached
import BoatRamp.Deploy.Freshness
import BoatRamp.Deploy.Garbage
import BoatRamp.Node.Backlog
import BoatRamp.Node.Durability
import BoatRamp.RawSql.Mirror
import BoatRamp.WalRepair.Safety
import BoatRamp.Functions.Cron
import BoatRamp.Functions.Attempts
import BoatRamp.Http1.Legacy
import BoatRamp.Http1.Bounds
import BoatRamp.RawSql.Literals
import BoatRamp.Orm.Promotion
import BoatRamp.Bindings.Marker
