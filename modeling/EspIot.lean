import EspIot.Lib.Bytes
import EspIot.Lib.Lists
import EspIot.Misc.TimerRuns
import EspIot.Misc.CircularBuffer
import EspIot.Network.Ws
import EspIot.Async.Settlement
import EspIot.Async.Waiting
import EspIot.Network.AsyncNow
import EspIot.Network.AsyncNowRuns
import EspIot.Lib.Blocks
import EspIot.Network.Reassembly
import EspIot.Network.Delivery
import EspIot.Network.Mixing
import EspIot.Async.FutureRuns
import EspIot.Network.RequestRuns
import EspIot.Async.Dispatcher
import EspIot.Network.MqttMirror
import EspIot.Network.MqttMessages
import EspIot.Network.WsAnswers
import EspIot.Misc.StorageChanges
import EspIot.Misc.StorageCrash
import EspIot.Network.NowIo
import EspIot.Network.NowLifecycle
import EspIot.Network.NowLifecycleRuns
import EspIot.Network.RequestPeers
import EspIot.Network.WsAgreement
import EspIot.Misc.ButtonClicks
import EspIot.Misc.ButtonCount
import EspIot.Misc.ButtonEdges
import EspIot.Misc.ButtonHold
import EspIot.Network.WsTurns
import EspIot.Async.SystemTimer
import EspIot.Async.RacingRuns
import EspIot.Async.SequentialRuns
import EspIot.Network.SendReads
import EspIot.Network.Wifi
import EspIot.Network.MqttPacing
import EspIot.Network.RequestNetwork
import EspIot.Network.MqttPublish
import EspIot.Network.Discovery
import EspIot.Network.HubDiscovery
import EspIot.Misc.TimerStale
import EspIot.Misc.TimerDeadlineRuns
import EspIot.Misc.StorageFile
import EspIot.Network.BinaryUpdates
import EspIot.Network.MqttNumbers
import EspIot.Network.NowParse
import EspIot.Network.NowNetwork
import EspIot.Base.FixedStrings
import EspIot.Network.WifiCredentials
import EspIot.Misc.LedBlink
import EspIot.Misc.LedFlash
import EspIot.Misc.VectorRelease
import EspIot.Misc.RingQueue
import EspIot.Misc.TimerBooks
import EspIot.Misc.EventTopic
import EspIot.Bootstrap
import EspIot.BootstrapHeard
import EspIot.BootstrapTime
import EspIot.Network.Device
import EspIot.Network.DeviceAgreement
import EspIot.Network.DeviceLog
