import KubeConsole.Discovery.Aggregated
import KubeConsole.Discovery.Legacy
import KubeConsole.Exec.Admission
import KubeConsole.Exec.Handler
import KubeConsole.Exec.Limits
import KubeConsole.Exec.Protocol
import KubeConsole.Exec.ReadyFrame
import KubeConsole.Exec.Session
import KubeConsole.Exec.Stdin
import KubeConsole.Exec.Teardown
import KubeConsole.Gateway.Identity
import KubeConsole.Gateway.Policy
import KubeConsole.Gateway.Rewrite
import KubeConsole.Gateway.Shutdown
import KubeConsole.Gateway.Streaming
import KubeConsole.Go.Header
import KubeConsole.Go.Netip
import KubeConsole.Go.Path
import KubeConsole.Go.Query
import KubeConsole.Go.Strings
import KubeConsole.Go.URL
import KubeConsole.Httpx.ClientIP
import KubeConsole.Kube.Registry
import KubeConsole.Metrics.Handler
import KubeConsole.Server.InFlight
import KubeConsole.Server.Readiness
import KubeConsole.Server.Static
import KubeConsole.Server.WriteDeadline
import KubeConsole.Startup.Fences
import KubeConsole.Startup.Flags
import KubeConsole.Startup.Load
import KubeConsole.Theory.Best
import KubeConsole.Theory.Comparator
import KubeConsole.Theory.Encoding
import KubeConsole.Theory.FanOut
import KubeConsole.Theory.Fields
import KubeConsole.Theory.Fresh
import KubeConsole.Theory.History
import KubeConsole.Theory.JsonText
import KubeConsole.Theory.Keyed
import KubeConsole.Theory.Lexical
import KubeConsole.Theory.Mask
import KubeConsole.Theory.OrderedMap
import KubeConsole.Theory.Paced
import KubeConsole.Theory.Paging
import KubeConsole.Theory.Pending
import KubeConsole.Theory.Scan
import KubeConsole.Theory.Scanner
import KubeConsole.Theory.Settings
import KubeConsole.Theory.Spans
import KubeConsole.Theory.Tail
import KubeConsole.Theory.TaskGroup
import KubeConsole.Theory.Threads
import KubeConsole.Theory.Transition
import KubeConsole.Theory.Tree
import KubeConsole.Web.AuthStorage
import KubeConsole.Web.AuthStore
import KubeConsole.Web.ClusterSummary
import KubeConsole.Web.CommandLine
import KubeConsole.Web.CompactSpec
import KubeConsole.Web.Credentials
import KubeConsole.Web.EventSort
import KubeConsole.Web.ExecSockets
import KubeConsole.Web.FieldText
import KubeConsole.Web.FieldTree
import KubeConsole.Web.Js
import KubeConsole.Web.Json
import KubeConsole.Web.K8s
import KubeConsole.Web.KubeVersions
import KubeConsole.Web.ListContext
import KubeConsole.Web.ListDegraded
import KubeConsole.Web.ListStep
import KubeConsole.Web.ListTokens
import KubeConsole.Web.ListUnmount
import KubeConsole.Web.LogHits
import KubeConsole.Web.LogJson
import KubeConsole.Web.LogLine
import KubeConsole.Web.LogSearch
import KubeConsole.Web.LogSegments
import KubeConsole.Web.LogsBuffer
import KubeConsole.Web.LogsResume
import KubeConsole.Web.LogsStream
import KubeConsole.Web.MetricsCache
import KubeConsole.Web.MetricsPolling
import KubeConsole.Web.OwnedFields
import KubeConsole.Web.OwnedPods
import KubeConsole.Web.PodEnv
import KubeConsole.Web.PodMetrics
import KubeConsole.Web.PollingLoop
import KubeConsole.Web.PruneEmpty
import KubeConsole.Web.ResourceCatalog
import KubeConsole.Web.ResourceList
import KubeConsole.Web.ResourceObject
import KubeConsole.Web.ResourceTable
import KubeConsole.Web.ResourceUrl
import KubeConsole.Web.RingBuffer
import KubeConsole.Web.RowIndex
import KubeConsole.Web.SecretYaml
import KubeConsole.Web.ServerHistory
import KubeConsole.Web.TableSort
import KubeConsole.Web.TableWalk
import KubeConsole.Web.Transports
import KubeConsole.Web.Unauthorized
import KubeConsole.Web.UseWatch
import KubeConsole.Web.WatchDelivery
import KubeConsole.Web.WatchLoop
import KubeConsole.Web.WatchReplica
import KubeConsole.Web.YamlTab
