import Priot.Asn01.ObjidRoundTrip
import Priot.Asn01.ObjidExact
import Priot.Asn01.IntegerStable
import Priot.Asn01.LengthOctets
import Priot.Api.Encoders
import Priot.OidStash.Map
import Priot.Mib.NumericText
import Priot.Requests.Outstanding
import Priot.Agent.ErrorResponse
import Priot.Containers.MultiIndex
import Priot.Numerics.Decimal
import Priot.Subagent.Runs
import Priot.Proxy.Faithful
import Priot.AccessControl.Restart
import Priot.Agentx.Framing
import Priot.Usm.UserMap
import Priot.Usm.Authentic
import Priot.Usm.UserLine
import Priot.Containers.ContainerIterator
import Priot.Containers.IteratorRemove
import Priot.Containers.MapList
import Priot.AccessControl.ViewCreate
import Priot.Agent.GetbulkOrder
import Priot.Agentx.Delegation
import Priot.Agentx.Arrived
import Priot.Table.ExactRows
import Priot.SysORTable.Unregister
import Priot.Table.RowsByOid
import Priot.RowMerge.Passes
import Priot.BabySteps.FlowChart
import Priot.TableArray.Sequences
import Priot.MteTrigger.Crossings
import Priot.MteTrigger.Numbers
import Priot.MteTrigger.Discontinuity
import Priot.MteObjects.CreateEntry
import Priot.HeaderComplex.Codec
import Priot.HeaderComplex.Store
import Priot.Trap.SendTraps
import Priot.Watcher.Spinlock
import Priot.Schedule.NextTime
import Priot.CacheHandler.LifeCycle
import Priot.AgentIndex.IdxLists
import Priot.Convert.Numerals
import Priot.Convert.Replace
import Priot.Dispatcher.FdEvents
import Priot.Util.Callback
import Priot.Util.DefaultStore
