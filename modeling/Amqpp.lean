import Amqpp.Lib.Machine
import Amqpp.Lib.Prog
import Amqpp.Lib.SortedMap
import Amqpp.Wire.Strings
import Amqpp.Table.Write
import Amqpp.Theorems.Sizes
import Amqpp.Wire.Float
import Amqpp.Table.Read
import Amqpp.Table.RoundTrip
import Amqpp.Theorems.RoundTrip
import Amqpp.Frame.Basic
import Amqpp.Frame.Builder
import Amqpp.Theorems.Framing
import Amqpp.Codegen.Bits
import Amqpp.Codegen.Method
import Amqpp.Codegen.Codec
import Amqpp.Codegen.BitRun
import Amqpp.Codegen.Blocks
import Amqpp.Theorems.Codec
import Amqpp.Theorems.BitScans
import Amqpp.Codegen.ReadErrors
import Amqpp.Frame.Phases
import Amqpp.Channel.Basic
import Amqpp.Channel.Steps
import Amqpp.Channel.Run
import Amqpp.Channel.History
import Amqpp.Theorems.ChannelPromises
import Amqpp.Connection.Basic
import Amqpp.Theorems.ChannelClose
import Amqpp.Connection.Run
import Amqpp.Connection.Steps
import Amqpp.Connection.Closing
import Amqpp.Theorems.SocketClose
import Amqpp.Theorems.Dispatch
import Amqpp.Theorems.WritePath
import Amqpp.Table.Local
import Amqpp.Theorems.PrefixStable
import Amqpp.Table.Depth
import Amqpp.Theorems.Termination
import Amqpp.Theorems.TableOrder
import Amqpp.Theorems.TableLengths
import Amqpp.Theorems.LongStrings
import Amqpp.Wire.Byteswap
import Amqpp.Theorems.Byteswap
import Amqpp.Lib.Split
import Amqpp.Sasl.Basic
import Amqpp.Theorems.Sasl
import Amqpp.Theorems.FieldArray
import Amqpp.Theorems.BitPacking
import Amqpp.Theorems.DeadChannel
import Amqpp.Codegen.Properties
import Amqpp.Codegen.ContentHeader
import Amqpp.Theorems.ContentHeader
import Amqpp.Theorems.Presence
import Amqpp.Connection.Effects
import Amqpp.Connection.Numbering
import Amqpp.Connection.Writes
import Amqpp.Theorems.ClosedWrites
import Amqpp.Connection.OpenChannel
import Amqpp.Connection.Projection
import Amqpp.Connection.Submits
import Amqpp.Theorems.ChannelNumbers
import Amqpp.Theorems.OpenChannel
import Amqpp.Theorems.ReadLoop
import Amqpp.Codegen.Accessors
import Amqpp.Codegen.Frames
import Amqpp.Lib.Causal
import Amqpp.Connection.Handshake
import Amqpp.Connection.Conversation
import Amqpp.Theorems.Handshake
import Amqpp.Theorems.Isolation
import Amqpp.Theorems.Answers
import Amqpp.Theorems.Delivery
import Amqpp.Theorems.Survival
import Amqpp.Connection.Session
import Amqpp.Theorems.Session
import Amqpp.Table.Decoded
import Amqpp.Codegen.Decoded
import Amqpp.Theorems.Decoded
import Amqpp.Lib.Queued
import Amqpp.Connection.Outgoing
import Amqpp.Connection.Service
import Amqpp.Theorems.Service
import Amqpp.Theorems.Escape
import Amqpp.Theorems.Progress
