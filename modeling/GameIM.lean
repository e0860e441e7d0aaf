import GameIM.Lib.Machine
import GameIM.Lib.Ownership
import GameIM.Lib.Unwinding
import GameIM.Lib.Paging
import GameIM.Lib.Wire
import GameIM.Lib.Stream
import GameIM.Lib.Fields
import GameIM.Lib.Tally
import GameIM.Lib.Window
import GameIM.Lib.Text
import GameIM.Lib.Mask
import GameIM.Lib.Format
import GameIM.Lib.Int64
import GameIM.Lib.Strconv
import GameIM.Lib.Keyed
import GameIM.Lib.Linear
import GameIM.Lib.Owed
import GameIM.Api.Types
import GameIM.Api.Proto
import GameIM.Api.Wire
import GameIM.Api.Pb
import GameIM.Api.Unmarshal
import GameIM.Util.ChanID
import GameIM.Bus.Local
import GameIM.Store.Redis
import GameIM.Store.Keys
import GameIM.Store.Mongo
import GameIM.Store.RateWindow
import GameIM.Service.SeqAlloc
import GameIM.Service.SeqOrder
import GameIM.Service.SeqSingle
import GameIM.Service.Msg
import GameIM.Service.Filter
import GameIM.Service.FilterEnds
import GameIM.Service.FilterMask
import GameIM.Service.CachedChecks
import GameIM.Service.CheckSteps
import GameIM.Service.SendSteps
import GameIM.Service.SendOnce
import GameIM.Service.SendMsg
import GameIM.Service.SeqPlain
import GameIM.Service.Solo
import GameIM.Service.Retry
import GameIM.Service.MsgIds
import GameIM.Service.Consecutive
import GameIM.Service.Isolation
import GameIM.Service.Pull
import GameIM.Service.MsgCache
import GameIM.Gateway.Codec
import GameIM.Gateway.Pool
import GameIM.Gateway.Packets
import GameIM.Gateway.Conn
import GameIM.Gateway.ConnStream
import GameIM.Gateway.WriteLoop
import GameIM.Gateway.ConnManager
import GameIM.Gateway.BindSteps
import GameIM.Gateway.BindRace
import GameIM.Gateway.BindSolo
import GameIM.Gateway.Accept
import GameIM.Gateway.Ring
import GameIM.Gateway.RingPasses
import GameIM.Gateway.RingConn
import GameIM.Gateway.RingWait
import GameIM.Gateway.Broadcast
import GameIM.Gateway.RingTable
import GameIM.Gateway.Recipients
import GameIM.Gateway.Handlers
import GameIM.Gateway.Dispatch
import GameIM.Gateway.Session
import GameIM.Gateway.Rpc
import GameIM.Gateway.Heartbeat
import GameIM.Gateway.Serve
import GameIM.Delivery.Engine
import GameIM.Delivery.Calls
import GameIM.Delivery.Online
import GameIM.Delivery.Presence
import GameIM.Service.Channels
import GameIM.Service.JoinSteps
import GameIM.Service.ChannelTTL
import GameIM.Store.RedisStore
import GameIM.Store.Keyspace
import GameIM.Store.Kinds
import GameIM.Store.Deadlines
import GameIM.Store.Views
import GameIM.Store.CounterView
import GameIM.Store.SendCalls
import GameIM.Service.SeqCalls
import GameIM.Store.CheckView
import GameIM.Store.CacheView
import GameIM.App.Pipeline
import GameIM.App.Writes
import GameIM.App.ReadBack
import GameIM.App.Relay
import GameIM.App.Visibility
import GameIM.App.ClaimedType
import GameIM.App.NotifyOrder
