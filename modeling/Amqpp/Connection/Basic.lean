import Amqpp.Channel.Steps
import Amqpp.Frame.Builder

/-!
# The connection manager

`connection_manager`: the handlers that the io_service thread runs. A program here is one handler, from its call to its
return. Around the members, the state holds what Boost.Asio keeps for the manager (the reads and writes that are
outstanding, the bytes on the socket) and the calls made so far.
-/

namespace Amqpp

/-- `connection_manager::connection_state`. -/
inductive ConnectionState where
  | openState | closingState | closedState
  deriving DecidableEq, Repr

/-- `frame::ptr_t`: a frame and where it lives. -/
structure FramePtr where
  addr : Nat
  frame : Frame
  deriving DecidableEq, Repr

/-- An object behind a `frame_handler` pointer. -/
inductive FrameHandler where
  | channel0
  | channel (impl : ChannelImpl)

/-- An `async_write` that is outstanding: the frame whose bytes its buffers refer to, and how many bytes the socket has
taken. -/
structure AsyncWrite where
  frame : FramePtr
  sent : Nat
  deriving DecidableEq, Repr

/-- An `async_read` that is outstanding: into the header buffer, or into the two body buffers. -/
inductive AsyncRead where
  | header
  | body (n m : Nat)
  deriving DecidableEq, Repr

/-- Calls on the manager and on the handlers it dispatches to. -/
inductive Call where
  | beginWriteFrame (fr : Frame)
  | processFrame (index : Nat) (fr : Frame)
  | handleDeadChannelFrame (fr : Frame)
  | closeAsync (index : Nat)
  deriving DecidableEq, Repr

/-- The frame that a call passes to `begin_write_frame`. -/
def Call.submits : Call → Option Frame
  | beginWriteFrame fr => some fr
  | _ => none

/-- `connection_manager`. An entry of `channels` is a weak pointer: `none` once the handler is gone. -/
structure ConnectionManager where
  state : ConnectionState
  channels : List (Option FrameHandler)
  writeQueue : List FramePtr
  connectionClosedPromise : Promise Exception Bool
  builder : FrameBuilder
  writer : FrameWriter
  currentWriteFrame : Option FramePtr
  /-- The promises of `begin_open_channel`. A value is the index of the new channel. -/
  channelPromises : List (Promise Exception Nat)
  /-- Frames made so far: the next one lives at this address. -/
  allocated : Nat
  writes : List AsyncWrite
  reads : List AsyncRead
  /-- The bytes the socket has taken. -/
  socket : List UInt8
  calls : List Call

namespace ConnectionManager

/-- The constructor. The bytes of `m_header` in the writer are not initialised. -/
def create : ConnectionManager where
  state := .openState
  channels := []
  writeQueue := []
  connectionClosedPromise := .unset
  builder := .create
  writer := ⟨List.replicate 7 0⟩
  currentWriteFrame := none
  channelPromises := []
  allocated := 0
  writes := []
  reads := []
  socket := []
  calls := []

/-- The channel at an index, while it is alive. -/
def channelAt (i : Nat) (s : ConnectionManager) : Option ChannelImpl :=
  match s.channels[i]? with
  | some (some (.channel c)) => some c
  | _ => none

/-- The channel at an index, after a call. -/
def setChannel (i : Nat) (c : ChannelImpl) (s : ConnectionManager) : ConnectionManager :=
  { s with channels := s.channels.set i (some (.channel c)) }

/-- The frames passed to `begin_write_frame` so far. -/
def submitted (s : ConnectionManager) : List Frame := s.calls.filterMap Call.submits

/-- Note a call. -/
def record (call : Call) : Prog Exception ConnectionManager Unit := modify fun s => { s with calls := s.calls ++ [call] }

/-- A new object for a frame. -/
def allocate (fr : Frame) : Prog Exception ConnectionManager FramePtr := fun s =>
  .ok ⟨s.allocated, fr⟩ { s with allocated := s.allocated + 1 }

variable (Γ : Env)

/-- `frame::create_from_method`. -/
def createFrame (channel : UInt16) (method : Method) : Prog Exception ConnectionManager FramePtr := do
  allocate (← Prog.lift (createFromMethod Γ.memory channel method))

/-! ## Writing -/

/-- The statements that `begin_write_frame` and `on_write_frame` share: the front of the queue becomes the current frame,
and its write starts. -/
def writeFront : Prog Exception ConnectionManager Unit := do
  match (← get).writeQueue with
  | [] => Prog.undefined
  | fr :: queue =>
    modify fun s => { s with
      currentWriteFrame := some fr
      writeQueue := queue
      writer := s.writer.getSequence Γ.constants fr.frame
      writes := s.writes ++ [⟨fr, 0⟩] }

/-- `begin_write_frame`. -/
def beginWriteFrame (fr : FramePtr) : Prog Exception ConnectionManager Unit := do
  record (.beginWriteFrame fr.frame)
  let s ← get
  if s.state = .openState then
    let isWriting := if s.writeQueue.length > 0 then true else false
    modify fun s => { s with writeQueue := s.writeQueue ++ [fr] }
    if !isWriting then writeFront Γ else pure ()
  else pure ()

/-! ## Closing -/

/-- `chan->close_async()` on the handler at an index. -/
def closeHandler (i : Nat) : Prog Exception ConnectionManager Unit := do
  match (← get).channels[i]? with
  | some (some .channel0) => do
    record (.closeAsync i)
    throw (.logicError "Channel0 close_async not implemented.")
  | some (some (.channel _)) => do
    record (.closeAsync i)
    Prog.zoom (channelAt i) (setChannel i) ChannelImpl.closeAsync
  | _ => pure ()

/-- The loop of `close_channels`. -/
def closeEach : List Nat → Prog Exception ConnectionManager Unit
  | [] => pure ()
  | i :: is => do
    closeHandler i
    closeEach is

/-- `close_channels`. It starts at `m_channels.begin() + 1`. -/
def closeChannels : Prog Exception ConnectionManager Unit := do
  let size := (← get).channels.length
  if size = 0 then Prog.undefined else closeEach (List.range' 1 (size - 1))

/-- `on_socket_close`. -/
def onSocketClose : Prog Exception ConnectionManager Unit := do
  modify fun s => { s with state := .closedState }
  closeChannels

/-- `on_write_frame`, for a write that succeeded or failed. -/
def onWriteFrame (ok : Bool) : Prog Exception ConnectionManager Unit := do
  if ok then
    if (← get).writeQueue.length > 0 then writeFront Γ
    else modify fun s => { s with currentWriteFrame := none }
  else onSocketClose

/-! ## Dispatching -/

/-- `handle_dead_channel_frame`. -/
def handleDeadChannelFrame (fr : Frame) : Prog Exception ConnectionManager Unit := do
  record (.handleDeadChannelFrame fr)
  if fr.type = .method then
    let receivedMethod ← Prog.lift (Γ.spec.readFrame fr)
    if receivedMethod.classId = Γ.channel.index ∧ receivedMethod.desc.index = Γ.channelClose.index then
      let closeFrame ← createFrame Γ fr.channel (.create Γ.channel Γ.channelCloseOk)
      beginWriteFrame Γ closeFrame
    else pure ()
  else pure ()

/-- `fh->process_frame(fr)` on the handler at an index. -/
def processFrame (i : Nat) (fr : Frame) : Prog Exception ConnectionManager Unit := do
  record (.processFrame i fr)
  match (← get).channels[i]? with
  | some (some .channel0) => throw (.logicError "Channel0 process_frame not implemented.")
  | _ => Prog.zoom (channelAt i) (setChannel i) (ChannelImpl.processFrame Γ fr)

/-- `dispatch_frame` from its read of `m_channels` on. -/
def dispatchToHandler (fr : Frame) : Prog Exception ConnectionManager Unit := do
  let channelId := fr.channel.toNat
  match (← get).channels[channelId]? with
  -- The read is past the end of the vector.
  | none => Prog.undefined
  | some none => handleDeadChannelFrame Γ fr
  | some (some _) =>
    tryCatch (processFrame Γ channelId fr) fun
      | .connectionException => pure ()
      | e => throw e

/-- The first `if` of `dispatch_frame`. -/
def dispatchUnknown (fr : Frame) : Prog Exception ConnectionManager Unit := do
  if fr.channel.toNat ≥ (← get).channels.length then handleDeadChannelFrame Γ fr else pure ()

/-- `dispatch_frame`. The first `if` does not return. -/
def dispatchFrame (fr : Frame) : Prog Exception ConnectionManager Unit := do
  dispatchUnknown Γ fr
  dispatchToHandler Γ fr

/-! ## Reading -/

/-- `begin_frame_read`. -/
def beginFrameRead : Prog Exception ConnectionManager Unit :=
  modify fun s => { s with builder := s.builder.reset, reads := s.reads ++ [.header] }

/-- The statements that the two read handlers share. -/
def receiveFrame : Prog Exception ConnectionManager Unit := do
  let receivedFrame ← Prog.lift ((← get).builder.createFrame Γ.constants)
  dispatchFrame Γ receivedFrame
  beginFrameRead

/-- The start of the read of a body. -/
def beginBodyRead : Prog Exception ConnectionManager Unit := do
  let ((n, m), builder) ← Prog.lift ((← get).builder.getBodyBuffer Γ.constants)
  modify fun s => { s with builder := builder, reads := s.reads ++ [.body n m] }

/-- `on_frame_header_read`. -/
def onFrameHeaderRead (ok : Bool) : Prog Exception ConnectionManager Unit := do
  if ok then
    let (required, builder) ← Prog.lift ((← get).builder.isBodyReadRequired Γ.constants)
    modify fun s => { s with builder := builder }
    if required then beginBodyRead Γ else receiveFrame Γ
  else onSocketClose

/-- `on_frame_body_read`. -/
def onFrameBodyRead (ok : Bool) : Prog Exception ConnectionManager Unit := do
  if ok then receiveFrame Γ else onSocketClose

/-! ## Channels -/

/-- `create_next_channel`. -/
def createNextChannel : Prog Exception ConnectionManager Nat := do
  let nextId := (← get).channels.length
  if nextId > 65535 then throw (.runtimeError "Out of channels!")
  else
    modify fun s => { s with channels := s.channels ++ [some (.channel (.create (UInt16.ofNat nextId)))] }
    return nextId

/-- The last pointer to the channel at an index goes: the weak pointer expires and the destructor runs. The frame it posts
comes to the manager like that of any other task. -/
def releaseChannel (i : Nat) : Prog Exception ConnectionManager Unit :=
  Prog.zoom (channelAt i) (fun _ s => { s with channels := s.channels.set i none }) (ChannelImpl.destroy Γ)

/-- Give the promise of a `begin_open_channel` a value or an exception. -/
def setChannelPromise (promise : Nat) (set : Promise Exception Nat → Except Exception (Promise Exception Nat)) :
    Prog Exception ConnectionManager Unit :=
  Prog.update fun s =>
    match s.channelPromises[promise]? with
    | some p => do return { s with channelPromises := s.channelPromises.set promise (← set p) }
    | none => .error .stuck

/-- `start_open_channel`. When it fails after it has made the channel, the channel goes with the last pointer to it,
`new_channel`. -/
def startOpenChannel (promise : Nat) : Prog Exception ConnectionManager Unit := do
  let nextId := (← get).channels.length
  tryCatch
    (do
      let newChannel ← createNextChannel
      let frame ← createFrame Γ (UInt16.ofNat newChannel) (.create Γ.channel Γ.channelOpen)
      beginWriteFrame Γ frame
      setChannelPromise promise (Promise.setValue .promiseAlreadySatisfied newChannel))
    fun e => do
      if e.isRuntimeError then
        setChannelPromise promise (Promise.setException .promiseAlreadySatisfied e.copyRuntimeError)
        if (← get).channels.length > nextId then releaseChannel Γ nextId else pure ()
      else throw e

/-- `start_async_read_loop`. -/
def startAsyncReadLoop : Prog Exception ConnectionManager Unit := do
  modify fun s => { s with channels := s.channels ++ [some .channel0] }
  beginFrameRead

end ConnectionManager

end Amqpp
