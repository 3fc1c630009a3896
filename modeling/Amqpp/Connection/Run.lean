import Amqpp.Connection.Basic
import Amqpp.Lib.Machine

/-!
# Runs of the connection manager

The io_service thread runs one handler after another: posted tasks, completions of the reads and writes that are
outstanding. In between, the socket takes bytes of the outstanding writes, and user threads send requests and drop channels.
Tasks come in any order and any number, so what the channels post is one source of them among others. An exception that
leaves a handler leaves `io_service::run` and the function of its thread, which ends the process: it ends the run.
-/

namespace Amqpp

/-- What happens next. -/
inductive ConnectionEvent where
  /-- A posted `begin_write_frame` runs, with a frame that whoever posted it made. -/
  | beginWriteFrame (fr : Frame)
  /-- A posted `start_open_channel` runs. -/
  | startOpenChannel
  /-- The socket takes the next byte of an outstanding write. -/
  | transmit (i : Nat)
  /-- An outstanding write completes. -/
  | writeDone (i : Nat) (ok : Bool)
  /-- An outstanding read completes, with its bytes or with an error. -/
  | readDone (i : Nat) (bytes : Option (List UInt8))
  /-- A user drops the last pointer to a channel. -/
  | destroyChannel (i : Nat)
  /-- A user sends a request on a channel. -/
  | beginRpc (i : Nat) (method : Method) (classId methodId : UInt16)

/-- The completion of a read or a write with an error. -/
def ConnectionEvent.isError : ConnectionEvent → Bool
  | .writeDone _ ok => !ok
  | .readDone _ bytes => bytes.isNone
  | _ => false

/-! ## Outstanding operations -/

/-- The number of bytes that a write sends. -/
def AsyncWrite.size (w : AsyncWrite) : Nat := w.frame.frame.payload.length + 8

/-- Somebody holds the frame: it is alive. -/
def ConnectionManager.Holds (s : ConnectionManager) (fr : FramePtr) : Prop :=
  s.currentWriteFrame = some fr ∨ fr ∈ s.writeQueue

instance (s : ConnectionManager) (fr : FramePtr) : Decidable (s.Holds fr) := by
  unfold ConnectionManager.Holds
  infer_instance

/-- The byte that a write sends next, read through its buffers now: the writer's header, the bytes of the frame as long as
it is alive, the end octet. -/
def AsyncWrite.nextByte (K : Constants) (s : ConnectionManager) (w : AsyncWrite) : Option UInt8 :=
  if w.sent < 7 then s.writer.header[w.sent]?
  else if w.sent < w.frame.frame.payload.length + 7 then
    if s.Holds w.frame then w.frame.frame.payload[w.sent - 7]? else none
  else if w.sent = w.frame.frame.payload.length + 7 then some K.frameEnd
  else none

/-- The number of bytes that a read waits for. -/
def AsyncRead.size : AsyncRead → Nat
  | header => 8
  | body n m => n + m

/-- The builder, once the buffers of a read are filled. -/
def AsyncRead.fill (builder : FrameBuilder) (bytes : List UInt8) : AsyncRead → FrameBuilder
  | header => { builder with header := bytes }
  | body n _ => builder.fillBody n bytes

/-- The handler of a read. -/
def AsyncRead.onDone (Γ : Env) (ok : Bool) : AsyncRead → Prog Exception ConnectionManager Unit
  | header => ConnectionManager.onFrameHeaderRead Γ ok
  | body _ _ => ConnectionManager.onFrameBodyRead Γ ok

namespace ConnectionManager

/-- The manager once the connection is open: the asynchronous read loop has started. -/
def started : ConnectionManager :=
  { create with channels := [some .channel0], builder := create.builder.reset, reads := [.header] }

theorem startAsyncReadLoop_create : startAsyncReadLoop create = .ok () started := rfl

/-- The socket takes the next byte of a write. -/
def transmit (K : Constants) (i : Nat) (s : ConnectionManager) : Option ConnectionManager := do
  let w ← s.writes[i]?
  let b ← w.nextByte K s
  return { s with socket := s.socket ++ [b], writes := s.writes.set i { w with sent := w.sent + 1 } }

/-- The handler of a posted `begin_write_frame`. -/
def runBeginWriteFrame (Γ : Env) (fr : Frame) : Prog Exception ConnectionManager Unit := do
  beginWriteFrame Γ (← allocate fr)

/-- The handler of a posted `start_open_channel`, with a promise of its own. -/
def runStartOpenChannel (Γ : Env) : Prog Exception ConnectionManager Unit := do
  let promise := (← get).channelPromises.length
  modify fun s => { s with channelPromises := s.channelPromises ++ [.unset] }
  startOpenChannel Γ promise

end ConnectionManager

/-! ## The machine -/

/-- The manager in a run, and the exception that ended it, with the event whose handler it left. -/
structure ConnectionRun where
  manager : ConnectionManager
  escaped : Option (ConnectionEvent × Exception)

namespace ConnectionRun

/-- What is left of a run when a handler of the io_service thread has run. -/
def afterHandler (e : ConnectionEvent) : Outcome Exception ConnectionManager Unit → Option ConnectionRun
  | .ok _ m => some ⟨m, none⟩
  | .throws ex m => some ⟨m, some (e, ex)⟩
  | .undefined => none

/-- What is left of a run when a user thread has made a call: what it throws goes to the user. -/
def afterUser {α : Type} : Outcome Exception ConnectionManager α → Option ConnectionRun
  | .ok _ m => some ⟨m, none⟩
  | .throws _ m => some ⟨m, none⟩
  | .undefined => none

/-- What holds of the end of a handler holds of the run after it. -/
theorem afterHandler_leaves {e : ConnectionEvent} {o : Outcome Exception ConnectionManager Unit} {r : ConnectionRun}
    {P : ConnectionManager → Prop} (h : afterHandler e o = some r) (ho : o.Leaves P) : P r.manager := by
  cases o with
  | ok a m =>
    cases h
    exact ho
  | throws ex m =>
    cases h
    exact ho
  | undefined => cases h

/-- What holds of the end of a call holds of the run after it. -/
theorem afterUser_leaves {α : Type} {o : Outcome Exception ConnectionManager α} {r : ConnectionRun} {P : ConnectionManager → Prop}
    (h : afterUser o = some r) (ho : o.Leaves P) : P r.manager := by
  cases o with
  | ok a m =>
    cases h
    exact ho
  | throws ex m =>
    cases h
    exact ho
  | undefined => cases h

/-- What happens next to a manager. -/
def next (Γ : Env) (m : ConnectionManager) (e : ConnectionEvent) : Option ConnectionRun :=
  match e with
  | .beginWriteFrame fr => afterHandler e (ConnectionManager.runBeginWriteFrame Γ fr m)
  | .startOpenChannel => afterHandler e (ConnectionManager.runStartOpenChannel Γ m)
  | .transmit i => (m.transmit Γ.constants i).map (⟨·, none⟩)
  | .writeDone i ok =>
    match m.writes[i]? with
    | some w =>
      if ok = true ∧ w.sent ≠ w.size then none
      else afterHandler e (ConnectionManager.onWriteFrame Γ ok { m with writes := m.writes.eraseIdx i })
    | none => none
  | .readDone i bytes =>
    match m.reads[i]?, bytes with
    | some r, some bytes =>
      if bytes.length ≠ r.size then none
      else afterHandler e (r.onDone Γ true { m with reads := m.reads.eraseIdx i, builder := r.fill m.builder bytes })
    | some r, none => afterHandler e (r.onDone Γ false { m with reads := m.reads.eraseIdx i })
    | none, _ => none
  | .destroyChannel i => afterUser (ConnectionManager.releaseChannel Γ i m)
  | .beginRpc i method classId methodId =>
    afterUser (Prog.zoom (ConnectionManager.channelAt i) (ConnectionManager.setChannel i)
      (ChannelImpl.beginRpc Γ method classId methodId) m)

/-- One step of a run, as long as no exception has ended it. -/
def step (Γ : Env) (r : ConnectionRun) (e : ConnectionEvent) : Option ConnectionRun :=
  if r.escaped.isSome then none else next Γ r.manager e

/-- A step of a run is a step of its manager. -/
theorem next_of_step {Γ : Env} {r r' : ConnectionRun} {e : ConnectionEvent} (h : r.step Γ e = some r') :
    r.escaped = none ∧ next Γ r.manager e = some r' := by
  unfold step at h
  split at h
  · cases h
  · rename_i hn
    exact ⟨Option.not_isSome_iff_eq_none.mp hn, h⟩

end ConnectionRun

/-- The connection manager from the start of its read loop on. -/
def connectionMachine (Γ : Env) : Machine ConnectionRun ConnectionEvent where
  init := ⟨.started, none⟩
  step := ConnectionRun.step Γ

end Amqpp
