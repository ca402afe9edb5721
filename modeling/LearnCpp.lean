import LearnCpp.AQueueSim
import LearnCpp.AQueueTail
import LearnCpp.AQueueBlock
import LearnCpp.AQueueUndo
import LearnCpp.AQueueLife
import LearnCpp.SpiOwnership
import LearnCpp.SpiMirror
import LearnCpp.SerialOwnership
import LearnCpp.FrameStream
import LearnCpp.FrameBound
import LearnCpp.FrameResync
import LearnCpp.SeqCheck
import LearnCpp.ZmqAlign
import LearnCpp.ZmqDrain
import LearnCpp.ZmqPublish
import LearnCpp.ZmqRoundTrip
import LearnCpp.FileTransferInv
import LearnCpp.AQueueSlots
import LearnCpp.CppString
import LearnCpp.Misc
import LearnCpp.SerialWrite
import LearnCpp.MiscStrings
import LearnCpp.GeneratedStream
import LearnCpp.Udifftime
import LearnCpp.GetlineLoops
import LearnCpp.Lib.Decimal
import LearnCpp.FloatText
import LearnCpp.Lib.Radix
import LearnCpp.Lib.Stamps
import LearnCpp.Uuid
import LearnCpp.UuidRandom
import LearnCpp.UuidText
import LearnCpp.Keyboard
import LearnCpp.AQueueHeap
import LearnCpp.AQueueOwnership
import LearnCpp.DebugCtrl
import LearnCpp.TcpTest
import LearnCpp.UdpBroadcast
import LearnCpp.Lib.Flags
import LearnCpp.Lib.LastWins
import LearnCpp.Lib.TagLoop
import LearnCpp.Lib.Varint
import LearnCpp.ProtobufClass
import LearnCpp.ProtobufCodec
import LearnCpp.ProtobufInteraction
import LearnCpp.ProtobufLog
