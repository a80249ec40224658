import Doudizhu.Lib.Runs
import Doudizhu.Lib.Framing
import Doudizhu.Lib.Coroutine
import Doudizhu.Lib.Action
import Doudizhu.Lib.Buffer
import Doudizhu.Lua.Format
import Doudizhu.Lua.Decimal
import Doudizhu.Log.Dump
import Doudizhu.Log.Expansions
import Doudizhu.Log.Messages
import Doudizhu.Network.StreamReassembly
import Doudizhu.Network.FrameSplitting
import Doudizhu.Network.SprotoPack
import Doudizhu.Network.SprotoCore
import Doudizhu.Network.Sessions
import Doudizhu.Network.Frames
import Doudizhu.Agent.Order
import Doudizhu.Agent.LoginReply
import Doudizhu.Client.LoginController
import Doudizhu.Client.DiskDataManager
import Doudizhu.Watchdog.Lifecycle
import Doudizhu.UserService.LoginCommands
import Doudizhu.UserService.UserIds
import Doudizhu.UserService.Accounts
import Doudizhu.UserService.RepeatedLogins
import Doudizhu.UserService.Nicknames
import Doudizhu.UserService.Dispatch
import Doudizhu.UserService.FirstLogin
import Doudizhu.UserService.HalfCreated
import Doudizhu.UserService.StartUp
import Doudizhu.UserService.StoredLogins
import Doudizhu.Utils.Class
import Doudizhu.Utils.Chains
import Doudizhu.Utils.RedisClientsMgr
import Doudizhu.Utils.ManagerHistories
import Doudizhu.Timer.Scheduler
import Doudizhu.Timer.Firing
import Doudizhu.Timer.Service
import Doudizhu.Timer.Drivers
import Doudizhu.Timer.FailingCallbacks
import Doudizhu.Timer.Cancellation
import Doudizhu.Timer.Arguments
import Doudizhu.Timer.Independence
import Doudizhu.Timer.Updates
import Doudizhu.Timer.Traversal
import Doudizhu.Window.Session
import Doudizhu.Window.Effects
import Doudizhu.Window.Steps
import Doudizhu.Window.Invariants
import Doudizhu.Window.Levels
import Doudizhu.Window.OneScene
import Doudizhu.Window.Masks
import Doudizhu.Window.Scenes
import Doudizhu.Window.Animations
import Doudizhu.Window.Queues
import Doudizhu.Window.Shown
import Doudizhu.Window.Requests
import Doudizhu.Window.ExitDialog
import Doudizhu.Window.BackKey
import Doudizhu.Game.GameRound
import Doudizhu.Game.TurnClock
import Doudizhu.Game.SeatRing
import Doudizhu.Lib.TimingWheel
import Doudizhu.Lib.RingBuffer
import Doudizhu.Lib.Reader
import Doudizhu.Skynet.Timer
import Doudizhu.Skynet.MessageQueue
import Doudizhu.Skynet.TimerThread
import Doudizhu.Skynet.LuaNetpack
import Doudizhu.Skynet.Gate
import Doudizhu.Skynet.Dispatch
import Doudizhu.Skynet.DispatchInvariant
import Doudizhu.Skynet.DispatchSafety
import Doudizhu.Skynet.LuaSeri
import Doudizhu.Skynet.SeriStreams
import Doudizhu.Skynet.SeriRoundTrip
import Doudizhu.Skynet.SocketBuffer
import Doudizhu.Skynet.SocketReads
import Doudizhu.Skynet.SocketPrograms
import Doudizhu.Skynet.SocketChannel
import Doudizhu.Skynet.Redis
import Doudizhu.Skynet.RedisClient
