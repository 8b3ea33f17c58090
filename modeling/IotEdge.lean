import IotEdge.Lib.Machine
import IotEdge.Lib.Mutex
import IotEdge.Lib.Circular
import IotEdge.Lib.BoundedMap
import IotEdge.Lib.LittleEndian
import IotEdge.Lib.Saturating
import IotEdge.Lib.LineStream
import IotEdge.Lib.Decimal
import IotEdge.Lib.Binary64
import IotEdge.Lib.CString
import IotEdge.Lib.Literal
import IotEdge.Lib.Scanf
import IotEdge.Lib.Printf
import IotEdge.Lib.Json
import IotEdge.Lib.Base64
import IotEdge.Lib.Calendar
import IotEdge.Lib.SlidingWindow
import IotEdge.Lib.TwoWire
import IotEdge.Lib.ByteLoop
import IotEdge.Gateway.DataQueue
import IotEdge.Gateway.CloudClient
import IotEdge.Gateway.QueueProtocol
import IotEdge.Gateway.Upload
import IotEdge.Gateway.ThreadPool
import IotEdge.Gateway.ThreadPoolQueue
import IotEdge.Gateway.ThreadPoolWakeup
import IotEdge.Gateway.ThreadPoolShutdown
import IotEdge.Gateway.AlarmScheduler
import IotEdge.Gateway.AlarmPeriods
import IotEdge.Gateway.AlarmSignal
import IotEdge.Gateway.ProcessPool
import IotEdge.Gateway.Blackboard
import IotEdge.Gateway.SensorIsolation
import IotEdge.Gateway.SemLock
import IotEdge.Gateway.TokenBucket
import IotEdge.Gateway.ClockSteps
import IotEdge.Gateway.DoubleBucket
import IotEdge.Gateway.UdpServer
import IotEdge.Gateway.UdpParser
import IotEdge.Gateway.UdpGrammar
import IotEdge.Gateway.UdpCombined
import IotEdge.Firmware.SensorData
import IotEdge.Gateway.Config
import IotEdge.Gateway.ConfigLines
import IotEdge.Gateway.ConfigBuffers
import IotEdge.Gateway.ConfigComments
import IotEdge.Gateway.PasswordAuth
import IotEdge.Gateway.Base64
import IotEdge.Gateway.Base64Encode
import IotEdge.Gateway.Base64Decode
import IotEdge.Gateway.Credentials
import IotEdge.Gateway.UploadRequest
import IotEdge.Gateway.UploadSize
import IotEdge.Gateway.IpcStream
import IotEdge.Gateway.PollTable
import IotEdge.Gateway.EventLoop
import IotEdge.Gateway.PollService
import IotEdge.Gateway.ReadyReads
import IotEdge.Gateway.IpcFraming
import IotEdge.Gateway.Mirror
import IotEdge.Gateway.FiniteRecords
import IotEdge.Gateway.Logger
import IotEdge.Gateway.CloudCancel
import IotEdge.Gateway.PoolTeardown
import IotEdge.Firmware.Esp8266
import IotEdge.Firmware.ReceiveBuffers
import IotEdge.Firmware.IpdFrames
import IotEdge.Firmware.IpdResync
import IotEdge.Firmware.Acknowledge
import IotEdge.Firmware.SendHandshake
import IotEdge.Firmware.DhtCycle
import IotEdge.Firmware.Rtc
import IotEdge.Firmware.GpioIic
import IotEdge.Firmware.IicBus
import IotEdge.Firmware.Eeprom
import IotEdge.Firmware.Sht
import IotEdge.Firmware.OledGram
import IotEdge.Firmware.OledPanel
import IotEdge.Firmware.OledDrawing
import IotEdge.Firmware.OledText
import IotEdge.Gateway.UploadStream
import IotEdge.Gateway.Pipeline
import IotEdge.Gateway.CloudView
import IotEdge.Gateway.RateLimit
import IotEdge.Monitor.LoginReply
import IotEdge.Monitor.LoginRequest
import IotEdge.Monitor.SensorCache
import IotEdge.Monitor.AlarmPage
import IotEdge.Monitor.AlarmIndicator
import IotEdge.Monitor.OverviewPage
import IotEdge.Monitor.GaugeTimer
import IotEdge.Monitor.GaugeArrival
import IotEdge.Monitor.TrendPage
import IotEdge.Monitor.TopicFilter
import IotEdge.Monitor.MqttConnection
import IotEdge.Monitor.PacketIdentifier
import IotEdge.Monitor.MqttSubscriptions
import IotEdge.Monitor.MqttDelivery
import IotEdge.Monitor.MqttReader
import IotEdge.Monitor.MqttMessages
import IotEdge.Monitor.Thresholds
