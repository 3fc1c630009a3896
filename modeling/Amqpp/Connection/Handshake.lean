import Amqpp.Codegen.Accessors
import Amqpp.Connection.Basic
import Amqpp.Lib.Causal
import Amqpp.Sasl.Basic

/-!
# Opening a connection

`connection_impl::connect`, which the constructor runs: it finds an endpoint that takes the connection, sends the protocol
header, and then takes turns with the broker over synchronous reads and writes until the broker has opened the connection.
-/

namespace Amqpp

/-- The bytes of a string literal. -/
def bytesOf (s : String) : List UInt8 := s.toList.map Char.toUInt8

/-- The generated class connection, with the arguments that the getters and setters `connect` calls stand for. The
constructor of `start_ok` leaves the table of client properties empty. -/
structure ConnectionEnv extends Env where
  /-- `methods::connection` and its methods. -/
  connection : ClassDesc
  start : MethodDesc
  startOk : MethodDesc
  tune : MethodDesc
  tuneOk : MethodDesc
  openMethod : MethodDesc
  openOk : MethodDesc
  connection_mem : connection ∈ spec.classes
  methods_mem : [start, startOk, tune, tuneOk, openMethod, openOk] ⊆ connection.methods
  start_arguments : start.arguments = [.octet, .octet, .table, .longstr, .longstr]
  startOk_arguments : startOk.arguments = [.table, .shortstr, .longstr, .shortstr]
  startOk_properties : startOk.initial[0]? = some (.table [])
  tune_arguments : tune.arguments = [.short, .long, .short]
  tuneOk_arguments : tuneOk.arguments = [.short, .long, .short]
  openMethod_arguments : openMethod.arguments = [.shortstr, .shortstr, .bit]

/-- What leaves `connect`: an exception of the library, or the `boost::system::system_error` of an operation on the network.
-/
inductive ConnectException where
  | thrown (e : Exception)
  | systemError
  deriving DecidableEq, Repr

/-- `tcp::socket`. -/
inductive SocketState where
  | closed | opened | connected
  deriving DecidableEq, Repr

/-- `connection_impl` while its constructor runs: `m_thread`, the socket of it, the bytes of the broker that are not read
yet, and how many bytes in all the broker takes before the connection breaks, if it does. -/
structure ConnectionImpl where
  thread : ConnectionManager
  socket : SocketState
  incoming : List UInt8
  breaksAfter : Option Nat

namespace ConnectionImpl

/-- The members before `connect`, and the broker to be. -/
def create (incoming : List UInt8) (breaksAfter : Option Nat) : ConnectionImpl := ⟨.create, .closed, incoming, breaksAfter⟩

/-- A computation that does not touch the connection. -/
def attempt {α : Type} (x : Except Exception α) : Prog ConnectException ConnectionImpl α := Prog.lift (x.mapError .thrown)

/-- A call on `m_thread`. -/
def onThread {α : Type} (x : Prog Exception ConnectionManager α) : Prog ConnectException ConnectionImpl α := fun s =>
  match x s.thread with
  | .ok a t => .ok a { s with thread := t }
  | .throws e t => .throws (.thrown e) { s with thread := t }
  | .undefined => .undefined

/-! ## The socket -/

/-- The loop over the endpoints that the resolver found, each with whether it takes the connection. `socket::connect` opens
the socket, and leaves it open when it fails. -/
def connectLoop : List Bool → Prog ConnectException ConnectionImpl Unit
  | [] => pure ()
  | takes :: endpoints => do
    modify fun s => { s with socket := if takes then .connected else .opened }
    if takes then pure () else connectLoop endpoints

/-- `connect` up to the handshake. A resolver that fails throws. -/
def openSocket (resolved : Option (List Bool)) : Prog ConnectException ConnectionImpl Unit := do
  match resolved with
  | none => throw .systemError
  | some endpoints =>
    connectLoop endpoints
    if (← get).socket = .closed then throw (.thrown (.runtimeError "Failed to connect to remote peer")) else pure ()

/-- The bytes of a write that the broker takes. -/
def taken (s : ConnectionImpl) (bytes : List UInt8) : List UInt8 :=
  match s.breaksAfter with
  | none => bytes
  | some n => bytes.take (n - s.thread.socket.length)

/-- `boost::asio::write`. -/
def write (bytes : List UInt8) : Prog ConnectException ConnectionImpl Unit := fun s =>
  if s.socket = .connected then
    let t := { s with thread := { s.thread with socket := s.thread.socket ++ s.taken bytes } }
    if s.taken bytes = bytes then .ok () t else .throws .systemError t
  else .throws .systemError s

variable (Γ : ConnectionEnv)

/-- `connection_manager::read_frame` on the socket. -/
def readFrame : Prog ConnectException ConnectionImpl Frame := fun s =>
  if s.socket = .connected then
    match Amqpp.readFrame Γ.constants s.thread.builder (.ofString s.incoming) with
    | .ok ((f, builder), rest) => .ok f { s with thread := { s.thread with builder := builder }, incoming := rest.buf }
    | .error e => .throws (.thrown e) s
  else .throws .systemError s

/-- `connection_manager::write_frame`. -/
def writeFrame (fr : Frame) : Prog ConnectException ConnectionImpl Unit := do
  modify fun s => { s with thread := { s.thread with writer := s.thread.writer.getSequence Γ.constants fr } }
  write (fr.sequence Γ.constants)

/-! ## The methods -/

/-- `handshake`: the protocol header. -/
def protocolHeader : List UInt8 := bytesOf "AMQP" ++ [0, 0, 9, 1]

/-- The entries that are inserted into the client properties. -/
def clientProperties : List (List UInt8 × List UInt8) :=
  [(bytesOf "product", bytesOf "libamqp-cpp"), (bytesOf "version", bytesOf "0.1b"), (bytesOf "platform", bytesOf "c++"),
    (bytesOf "copyright", bytesOf "Alan Antonuk (c) 2011"),
    (bytesOf "information", bytesOf "http://github.com/alanxz/libamqp-cpp")]

/-- The constructor of `table_entry` from a string. -/
def stringEntry (key value : List UInt8) : Except Exception TableEntry :=
  if !TableEntry.validateKeyName key then .error (.runtimeError "Table entry key name is not valid.")
  else .ok (.mk key (.longstring value))

/-- The client properties of a `start_ok`, one `insert` after another. -/
def insertProperties (startOk : Method) : Except Exception Method :=
  clientProperties.foldlM (fun m p => do m.insertEntry 0 (← stringEntry p.1 p.2)) startOk

/-- The check of the version in `start`. -/
def checkVersion (start : Method) : Except Exception Bool := do
  let versionMajor ← start.getOctet 0
  let versionMinor ← start.getOctet 1
  return decide (0 = versionMajor ∧ 9 = versionMinor)

/-- `start_ok`, from `create` to its last setter. -/
def makeStartOk (B : Sasl.StringAlgo) (start : Method) (username password : List UInt8) : Except Exception Method := do
  let startOk ← insertProperties (.create Γ.connection Γ.startOk)
  let mechanism ← Sasl.selectSaslMechanism B (← start.getLongstr 3)
  let startOk ← startOk.set 1 (.shortstr mechanism)
  let startOk ← startOk.set 2 (.longstr (← Sasl.getSaslResponse mechanism username password))
  startOk.set 3 (.shortstr (bytesOf "en_US"))

/-- `tune_ok`. -/
def makeTuneOk (tune : Method) : Except Exception Method := do
  let tuneOk ← (Method.create Γ.connection Γ.tuneOk).set 0 (.short (← tune.getShort 0))
  let tuneOk ← tuneOk.set 1 (.long (← tune.getLong 1))
  tuneOk.set 2 (.short (← tune.getShort 2))

/-- `open`. -/
def makeOpen (vhost : List UInt8) : Except Exception Method := do
  let openMethod ← (Method.create Γ.connection Γ.openMethod).set 0 (.shortstr vhost)
  let openMethod ← openMethod.set 1 (.shortstr [])
  openMethod.set 2 (.bit false)

/-! ## The handshake -/

/-- `method_cast` on the method of the next frame. -/
def readMethod (d : MethodDesc) : Prog ConnectException ConnectionImpl Method := do
  let fr ← readFrame Γ
  attempt ((Γ.spec.readFrame fr).bind (·.cast Γ.connection d))

/-- The frame of a method on channel 0 is made and written. -/
def writeMethod (m : Method) : Prog ConnectException ConnectionImpl Unit := do
  let fr ← attempt (createFromMethod Γ.memory 0 m)
  writeFrame Γ fr

/-- What follows a `start` with another version: the socket is closed. -/
def refuseVersion : Prog ConnectException ConnectionImpl Unit := do
  modify fun s => { s with socket := .closed }
  throw (.thrown (.runtimeError "Broker is using the wrong version of AMQP"))

/-- `connect`, for what the resolver finds. -/
def connect (B : Sasl.StringAlgo) (resolved : Option (List Bool)) (username password vhost : List UInt8) :
    Prog ConnectException ConnectionImpl Unit := do
  openSocket resolved
  write protocolHeader
  let start ← readMethod Γ Γ.start
  if !(← attempt (checkVersion start)) then refuseVersion
  else
    writeMethod Γ (← attempt (makeStartOk Γ B start username password))
    let tune ← readMethod Γ Γ.tune
    writeMethod Γ (← attempt (makeTuneOk Γ tune))
    writeMethod Γ (← attempt (makeOpen Γ vhost))
    let _openOk ← readMethod Γ Γ.openOk
    onThread ConnectionManager.startAsyncReadLoop

/-! ## What the steps do -/

@[simp] theorem attempt_eq_ok {α : Type} {x : Except Exception α} {s t : ConnectionImpl} {a : α} :
    attempt x s = .ok a t ↔ x = .ok a ∧ t = s := by
  cases x <;> simp [attempt, Except.mapError, eq_comm]

theorem connectLoop_eq (endpoints : List Bool) (s : ConnectionImpl) :
    connectLoop endpoints s = .ok () { s with
      socket := if true ∈ endpoints then .connected else if endpoints = [] then s.socket else .opened } := by
  induction endpoints generalizing s with
  | nil => simp [connectLoop]
  | cons takes endpoints ih =>
    cases takes with
    | true => simp [connectLoop]
    | false => by_cases h : true ∈ endpoints <;> simp [connectLoop, ih, h]

/-- The socket is open after the loop unless there was no endpoint. -/
theorem openSocket_some {endpoints : List Bool} {s : ConnectionImpl} (hs : s.socket = .closed) :
    openSocket (some endpoints) s =
      if endpoints = [] then .throws (.thrown (.runtimeError "Failed to connect to remote peer")) s
      else .ok () { s with socket := if true ∈ endpoints then .connected else .opened } := by
  obtain ⟨thread, socket, incoming, breaksAfter⟩ := s
  obtain rfl := hs
  by_cases hnil : endpoints = []
  · simp [openSocket, connectLoop_eq, hnil]
  · by_cases htrue : true ∈ endpoints <;> simp [openSocket, connectLoop_eq, hnil, htrue]

/-- The broker has taken some bytes. -/
def push (bytes : List UInt8) (s : ConnectionImpl) : ConnectionImpl :=
  { s with thread := { s.thread with socket := s.thread.socket ++ bytes } }

/-- The broker takes that many bytes more. -/
def Fits (s : ConnectionImpl) (bytes : List UInt8) : Prop :=
  ∀ n, s.breaksAfter = some n → s.thread.socket.length + bytes.length ≤ n

theorem taken_eq_iff {s : ConnectionImpl} {bytes : List UInt8} (hne : bytes ≠ []) : s.taken bytes = bytes ↔ s.Fits bytes := by
  have hpos := List.length_pos_iff.mpr hne
  unfold taken Fits
  cases s.breaksAfter with
  | none => simp
  | some n =>
    simp only [List.take_eq_self_iff, Option.some.injEq, forall_eq']
    omega

theorem taken_prefix (s : ConnectionImpl) (bytes : List UInt8) : s.taken bytes <+: bytes := by
  unfold taken
  cases s.breaksAfter with
  | none => exact List.prefix_refl _
  | some n => exact List.take_prefix _ _

theorem write_eq_ok {s t : ConnectionImpl} {bytes : List UInt8} (hne : bytes ≠ []) :
    write bytes s = .ok () t ↔ s.socket = .connected ∧ s.Fits bytes ∧ t = s.push bytes := by
  unfold write
  by_cases hs : s.socket = .connected
  · by_cases hfits : s.taken bytes = bytes
    · simp [hs, hfits, (taken_eq_iff hne).mp hfits, push, eq_comm]
    · simp [hs, hfits, mt (taken_eq_iff hne).mpr hfits]
  · simp [hs]

/-- What a write leaves, however it ends: the bytes that the broker took. -/
theorem write_ends (bytes : List UInt8) (s : ConnectionImpl) :
    (write bytes s).Ends fun t => ∃ p, p <+: bytes ∧ t = s.push p := by
  unfold write
  by_cases hs : s.socket = .connected
  · rw [if_pos hs]
    by_cases hfits : s.taken bytes = bytes
    · rw [if_pos hfits]
      exact ⟨s.taken bytes, s.taken_prefix bytes, rfl⟩
    · rw [if_neg hfits]
      exact ⟨s.taken bytes, s.taken_prefix bytes, rfl⟩
  · rw [if_neg hs]
    exact ⟨[], List.nil_prefix, by simp [push]⟩

/-- The connection after a frame was read from it. -/
def received (builder : FrameBuilder) (rest : List UInt8) (s : ConnectionImpl) : ConnectionImpl :=
  { s with thread := { s.thread with builder := builder }, incoming := rest }

/-- A frame that is read as a method. -/
structure Says (Γ : ConnectionEnv) (f : Frame) (d : MethodDesc) (m : Method) : Prop where
  length : f.payload.length < 2 ^ 32
  read : Γ.spec.readFrame f = .ok m
  is : m.Is Γ.connection d

variable {Γ : ConnectionEnv}

/-- The builder that made a frame has its type. -/
theorem type_of_readFrame {K : Constants} {b b' : FrameBuilder} {f : Frame} {s t : IStream}
    (h : Amqpp.readFrame K b s = .ok ((f, b'), t)) : b'.type = f.type := by
  obtain ⟨header, s₁, -, h⟩ := Reader.bind_eq_ok.mp h
  obtain ⟨⟨required, b₁⟩, -, h⟩ := Reader.lift_bind_eq_ok.mp h
  obtain ⟨b₂, s₂, -, h⟩ := Reader.bind_eq_ok.mp h
  obtain ⟨f', hcreate, hret⟩ := Reader.lift_bind_eq_ok.mp h
  cases hret
  obtain ⟨-, -, hret⟩ := Except.bind_eq_ok.mp hcreate
  cases hret
  rfl

/-- A method that was read opens the bytes of the broker. -/
theorem of_readMethod {d : MethodDesc} {m : Method} {s t : ConnectionImpl} (h : readMethod Γ d s = .ok m t) :
    s.socket = .connected ∧ ∃ f rest builder, s.incoming = f.sequence Γ.constants ++ rest ∧ Says Γ f d m ∧
      builder.type = f.type ∧ t = s.received builder rest := by
  obtain ⟨f, u, hframe, h⟩ := Prog.bind_eq_ok.mp h
  obtain ⟨hmethod, rfl⟩ := attempt_eq_ok.mp h
  obtain ⟨m', hread, hcast⟩ := Except.bind_eq_ok.mp hmethod
  obtain ⟨his, rfl⟩ := Method.cast_eq_ok.mp hcast
  unfold readFrame at hframe
  split at hframe
  · rename_i hs
    split at hframe
    · rename_i f' builder rest hr
      cases hframe
      obtain ⟨p, left, hin, rfl, hlen, rfl⟩ := parses_readFrame Γ.constants _ _ _ _ hr
      exact ⟨hs, f, left, builder, hin, ⟨hlen, hread, his⟩, type_of_readFrame hr, rfl⟩
    · cases hframe
  · cases hframe

/-- A frame that opens the bytes of the broker is read. -/
theorem readMethod_of_says {d : MethodDesc} {m : Method} {f : Frame} {rest : List UInt8} {s : ConnectionImpl}
    (hs : s.socket = .connected) (hin : s.incoming = f.sequence Γ.constants ++ rest) (h : Says Γ f d m) :
    ∃ builder, builder.type = f.type ∧ readMethod Γ d s = .ok m (s.received builder rest) := by
  obtain ⟨builder, hr⟩ := reads_readFrame Γ.constants s.thread.builder f h.length
  have hr' := hr rest
  refine ⟨builder, type_of_readFrame hr', Prog.bind_eq_ok.mpr ⟨f, s.received builder rest, ?_, ?_⟩⟩
  · unfold readFrame
    rw [if_pos hs, hin, hr']
    rfl
  · refine attempt_eq_ok.mpr ⟨?_, rfl⟩
    exact Except.bind_eq_ok.mpr ⟨m, h.read, Method.cast_eq_ok.mpr ⟨h.is, rfl⟩⟩

/-- The connection after a frame was written to it. -/
def wrote (Γ : ConnectionEnv) (g : Frame) (s : ConnectionImpl) : ConnectionImpl :=
  { s with thread := { s.thread with writer := ⟨g.header Γ.constants⟩, socket := s.thread.socket ++ g.sequence Γ.constants } }

theorem sequence_ne_nil (g : Frame) : g.sequence Γ.constants ≠ [] := by
  rw [← List.length_pos_iff, Frame.length_sequence]
  omega

theorem writeMethod_eq_ok {m : Method} {s t : ConnectionImpl} :
    writeMethod Γ m s = .ok () t ↔ ∃ g, createFromMethod Γ.memory 0 m = .ok g ∧ s.socket = .connected ∧
      s.Fits (g.sequence Γ.constants) ∧ t = s.wrote Γ g := by
  unfold writeMethod writeFrame
  simp only [Prog.bind_eq_ok, attempt_eq_ok, Prog.modify_apply, Outcome.ok.injEq]
  constructor
  · rintro ⟨g, u, ⟨hg, rfl⟩, -, v, ⟨-, rfl⟩, hwrite⟩
    obtain ⟨hs, hfits, rfl⟩ := (write_eq_ok (sequence_ne_nil g)).mp hwrite
    exact ⟨g, hg, hs, hfits, rfl⟩
  · rintro ⟨g, hg, hs, hfits, rfl⟩
    exact ⟨g, s, ⟨hg, rfl⟩, ⟨⟩, _, ⟨trivial, rfl⟩, (write_eq_ok (sequence_ne_nil g)).mpr ⟨hs, hfits, rfl⟩⟩

/-! ## What is sent, however a step ends -/

/-- A step that sends nothing. -/
def Quiet {α : Type} (x : Prog ConnectException ConnectionImpl α) : Prop :=
  ∀ s, (x s).Ends fun t => t.thread.socket = s.thread.socket

theorem quiet_attempt {α : Type} (x : Except Exception α) : Quiet (attempt x) := by
  intro s
  cases x <;> rfl

theorem quiet_readFrame (Γ : ConnectionEnv) : Quiet (readFrame Γ) := by
  intro s
  unfold readFrame
  split
  · split <;> rfl
  · rfl

/-- A step that sends nothing, and a program after it: what holds of the bytes sent before and after holds at the end. -/
theorem Quiet.ends_bind {α β : Type} {x : Prog ConnectException ConnectionImpl α} {f : α → Prog ConnectException ConnectionImpl β}
    (hx : Quiet x) {P : List UInt8 → Prop} {s : ConnectionImpl} (hs : P s.thread.socket)
    (hf : ∀ a t, x s = .ok a t → t.thread.socket = s.thread.socket → (f a t).Ends fun u => P u.thread.socket) :
    ((x >>= f) s).Ends fun u => P u.thread.socket := by
  have hends := hx s
  refine Prog.ends_bind (fun a t h => ?_) (fun e t h => ?_) fun h => ?_
  · rw [h] at hends
    exact hf a t h hends
  · rw [h] at hends
    exact hends.symm ▸ hs
  · rw [h] at hends
    exact hends

theorem quiet_connectLoop (endpoints : List Bool) : Quiet (connectLoop endpoints) := by
  intro s
  rw [connectLoop_eq]
  rfl

theorem quiet_openSocket (resolved : Option (List Bool)) : Quiet (openSocket resolved) := by
  intro s
  cases resolved with
  | none => rfl
  | some endpoints =>
    refine (quiet_connectLoop endpoints).ends_bind (P := (· = s.thread.socket)) rfl fun _ t _ ht => ?_
    simp only [Prog.bind_apply, Prog.get_apply, Prog.ite_apply]
    split
    · exact ht
    · exact ht

theorem quiet_readMethod (Γ : ConnectionEnv) (d : MethodDesc) : Quiet (readMethod Γ d) := fun s =>
  (quiet_readFrame Γ).ends_bind (P := (· = s.thread.socket)) rfl fun f t _ ht =>
    (quiet_attempt ((Γ.spec.readFrame f).bind (·.cast Γ.connection d)) t).imp fun _ hu => hu.trans ht

/-- A frame that is made and written: the broker has taken a part of it, or all of it. -/
theorem writeMethod_ends (m : Method) (s : ConnectionImpl) : (writeMethod Γ m s).Ends fun t =>
    t.thread.socket = s.thread.socket ∨
      ∃ g, createFromMethod Γ.memory 0 m = .ok g ∧ ∃ p, p <+: g.sequence Γ.constants ∧ t.thread.socket = s.thread.socket ++ p := by
  cases hg : createFromMethod Γ.memory 0 m with
  | error e =>
    simp only [writeMethod, hg, attempt, Except.mapError, Prog.bind_apply, Prog.lift_error]
    exact Or.inl rfl
  | ok g =>
    simp only [writeMethod, hg, attempt, Except.mapError, Prog.bind_apply, Prog.lift_ok, writeFrame, Prog.modify_apply]
    refine (write_ends _ _).imp ?_
    rintro _ ⟨p, hp, rfl⟩
    exact Or.inr ⟨g, rfl, p, hp, rfl⟩

/-- A program after such a write. -/
theorem ends_writeMethod_bind {m : Method} {f : Unit → Prog ConnectException ConnectionImpl Unit} {P : List UInt8 → Prop}
    {s : ConnectionImpl} (hs : P s.thread.socket)
    (hpart : ∀ g, createFromMethod Γ.memory 0 m = .ok g → ∀ p, p <+: g.sequence Γ.constants → P (s.thread.socket ++ p))
    (hf : ∀ g, createFromMethod Γ.memory 0 m = .ok g → (f () (s.wrote Γ g)).Ends fun u => P u.thread.socket) :
    ((writeMethod Γ m >>= f) s).Ends fun u => P u.thread.socket := by
  have hends := writeMethod_ends (Γ := Γ) m s
  refine Prog.ends_bind (fun _ t h => ?_) (fun e t h => ?_) fun h => ?_
  · obtain ⟨g, hg, -, -, rfl⟩ := writeMethod_eq_ok.mp h
    exact hf g hg
  · rw [h] at hends
    rcases hends with heq | ⟨g, hg, p, hp, heq⟩
    · exact heq.symm ▸ hs
    · exact heq.symm ▸ hpart g hg p hp
  · rw [h] at hends
    exact hends

end ConnectionImpl

/-! ## An environment for examples -/

namespace EnvSample

/-- `connection.start`. -/
def start : MethodDesc :=
  ⟨10, [.octet, .octet, .table, .longstr, .longstr], [.octet 0, .octet 9, .table [], .longstr [], .longstr []], rfl⟩

/-- `connection.start_ok`. -/
def startOk : MethodDesc :=
  ⟨11, [.table, .shortstr, .longstr, .shortstr], [.table [], .shortstr [], .longstr [], .shortstr []], rfl⟩

/-- `connection.tune`. -/
def tune : MethodDesc := ⟨30, [.short, .long, .short], [.short 0, .long 0, .short 0], rfl⟩

/-- `connection.tune_ok`. -/
def tuneOk : MethodDesc := ⟨31, [.short, .long, .short], [.short 0, .long 0, .short 0], rfl⟩

/-- `connection.open`. -/
def openMethod : MethodDesc := ⟨40, [.shortstr, .shortstr, .bit], [.shortstr [], .shortstr [], .bit false], rfl⟩

/-- `connection.open_ok`, with the one reserved argument that `channel.open` has. -/
def openOk : MethodDesc := { channelOpen with index := 41 }

/-- Class connection. -/
def connection : ClassDesc := ⟨10, [start, startOk, tune, tuneOk, openMethod, openOk]⟩

/-- A specification with class connection, too. -/
def connectionSpec : Spec where
  classes := [connection, channel, exchange]
  classes_nodup := by decide
  methods_nodup := List.forall_mem_cons.mpr
    ⟨by decide, List.forall_mem_cons.mpr ⟨by decide, List.forall_mem_singleton.mpr (by decide)⟩⟩

end EnvSample

/-- The environment for examples, with class connection. -/
def ConnectionEnv.sample : ConnectionEnv where
  toEnv := { Env.sample with
    spec := EnvSample.connectionSpec
    bitRuns := EnvSample.bitRuns_of_lengths (List.forall_mem_cons.mpr
      ⟨by decide, List.forall_mem_cons.mpr ⟨by decide, List.forall_mem_singleton.mpr (by decide)⟩⟩)
    channel_mem := List.mem_cons_of_mem _ Env.sample.channel_mem
    exchange_mem := List.mem_cons_of_mem _ Env.sample.exchange_mem }
  connection := EnvSample.connection
  start := EnvSample.start
  startOk := EnvSample.startOk
  tune := EnvSample.tune
  tuneOk := EnvSample.tuneOk
  openMethod := EnvSample.openMethod
  openOk := EnvSample.openOk
  connection_mem := List.mem_cons_self
  methods_mem := List.Subset.refl _
  start_arguments := rfl
  startOk_arguments := rfl
  startOk_properties := rfl
  tune_arguments := rfl
  tuneOk_arguments := rfl
  openMethod_arguments := rfl

end Amqpp
