import Amqpp.Connection.Conversation
import Amqpp.Connection.Run
import Amqpp.Theorems.Framing
import Amqpp.Theorems.Sasl

/-!
# The handshake

`connect` returns exactly when the broker says a `start` of version 0-9 that offers PLAIN, a `tune` and an `open_ok`; both
sides then agree on what was said. Whatever the broker does instead, the client sends each of its methods only after it has
read what it answers.
-/

namespace Amqpp

open ConnectionImpl

/-- What the client sends in all: the protocol header and its frames. -/
def ConnectionImpl.ClientFrames.bytes {Γ : ConnectionEnv} {username password vhost : List UInt8} {x : BrokerScript Γ}
    (y : ClientFrames Γ username password vhost x) : List UInt8 :=
  protocolHeader ++ y.frames.flatMap (·.sequence Γ.constants)

/-- The connection that `connect` leaves when it returns: the asynchronous read loop has started, and the limits of the
broker are kept nowhere. -/
def ConnectionImpl.opened {Γ : ConnectionEnv} {username password vhost : List UInt8} (x : BrokerScript Γ)
    (y : ClientFrames Γ username password vhost x) (rest : List UInt8) (breaksAfter : Option Nat) : ConnectionImpl where
  thread := { ConnectionManager.started with
    builder := { FrameBuilder.create with type := x.openOkFrame.type }
    writer := ⟨y.openMethod.header Γ.constants⟩
    socket := y.bytes }
  socket := .connected
  incoming := rest
  breaksAfter := breaksAfter

namespace ConnectionImpl

/-- The frame is a `start` of version 0-9 that offers PLAIN to a user who has a response, and the other one its `start_ok`.
-/
structure AnswersStart (Γ : ConnectionEnv) (B : Sasl.StringAlgo) (username password : List UInt8) (f g : Frame) : Prop where
  start : ∃ serverProperties mechanisms locales, Says Γ f Γ.start
    ⟨Γ.connection.index, Γ.start, [.octet 0, .octet 9, .table serverProperties, .longstr mechanisms, .longstr locales]⟩ ∧
    Answers B mechanisms username password
  made : createFromMethod Γ.memory 0 (startOkOf Γ username password) = .ok g

/-- The frame is a `tune`, and the other one a `tune_ok` with the same limits. -/
def AnswersTune (Γ : ConnectionEnv) (f g : Frame) : Prop :=
  ∃ channelMax frameMax heartbeat,
    Says Γ f Γ.tune ⟨Γ.connection.index, Γ.tune, [.short channelMax, .long frameMax, .short heartbeat]⟩ ∧
    createFromMethod Γ.memory 0 (tuneOkOf Γ channelMax frameMax heartbeat) = .ok g

/-- The most that the client sends in answer to the broker's bytes: the protocol header to any of them, `start_ok` to a whole
`start`, `tune_ok` to a whole `tune` behind it, and then `open`. -/
inductive MaySend (Γ : ConnectionEnv) (B : Sasl.StringAlgo) (username password vhost : List UInt8) :
    List UInt8 → List UInt8 → Prop where
  | header (incoming : List UInt8) : MaySend Γ B username password vhost incoming protocolHeader
  | startOk {f₁ g₁ : Frame} (rest : List UInt8) (h₁ : AnswersStart Γ B username password f₁ g₁) :
      MaySend Γ B username password vhost (f₁.sequence Γ.constants ++ rest) (protocolHeader ++ g₁.sequence Γ.constants)
  | tuneOk {f₁ g₁ f₂ g₂ : Frame} (rest : List UInt8) (h₁ : AnswersStart Γ B username password f₁ g₁) (h₂ : AnswersTune Γ f₂ g₂) :
      MaySend Γ B username password vhost (f₁.sequence Γ.constants ++ (f₂.sequence Γ.constants ++ rest))
        (protocolHeader ++ g₁.sequence Γ.constants ++ g₂.sequence Γ.constants)
  | openMethod {f₁ g₁ f₂ g₂ g₃ : Frame} (rest : List UInt8) (h₁ : AnswersStart Γ B username password f₁ g₁)
      (h₂ : AnswersTune Γ f₂ g₂) (hvhost : validateShortstring vhost = .ok ())
      (h₃ : createFromMethod Γ.memory 0 (openOf Γ vhost) = .ok g₃) :
      MaySend Γ B username password vhost (f₁.sequence Γ.constants ++ (f₂.sequence Γ.constants ++ rest))
        (protocolHeader ++ g₁.sequence Γ.constants ++ g₂.sequence Γ.constants ++ g₃.sequence Γ.constants)

end ConnectionImpl

namespace HandshakeAux

variable {Γ : ConnectionEnv} {B : Sasl.StringAlgo}

theorem checkVersion_eq {c : UInt16} {d : MethodDesc} {major minor : UInt8} {vs : List Value} :
    checkVersion ⟨c, d, .octet major :: .octet minor :: vs⟩ = .ok (decide (0 = major ∧ 9 = minor)) := rfl

/-- The connection, once some endpoint took it and the protocol header was sent. -/
def greeted (incoming : List UInt8) (breaksAfter : Option Nat) : ConnectionImpl :=
  push protocolHeader { ConnectionImpl.create incoming breaksAfter with socket := .connected }

/-- `connect` up to the first read. -/
theorem greet_eq_ok {resolved : Option (List Bool)} {incoming : List UInt8} {breaksAfter : Option Nat} {t : ConnectionImpl} :
    (openSocket resolved >>= fun _ => write protocolHeader) (.create incoming breaksAfter) = .ok () t ↔
      (∃ endpoints, resolved = some endpoints ∧ true ∈ endpoints) ∧ (∀ n, breaksAfter = some n → 8 ≤ n) ∧
        t = greeted incoming breaksAfter := by
  cases resolved with
  | none => simp [openSocket]
  | some endpoints =>
    rw [Prog.bind_apply, openSocket_some rfl]
    by_cases htrue : true ∈ endpoints
    · have hne : endpoints ≠ [] := List.ne_nil_of_mem htrue
      simp only [hne, htrue, if_true, if_false, write_eq_ok (show protocolHeader ≠ [] by decide), Option.some.injEq,
        exists_eq_left', true_and]
      exact Iff.rfl
    · by_cases hne : endpoints = []
      · simp [hne]
      · simp [hne, htrue, write_eq_ok (show protocolHeader ≠ [] by decide)]

/-- The last step of `connect`. -/
theorem startLoop_eq (s : ConnectionImpl) : onThread ConnectionManager.startAsyncReadLoop s =
    .ok () { s with thread := { s.thread with
      channels := s.thread.channels ++ [some .channel0], builder := { FrameBuilder.create with type := s.thread.builder.type },
      reads := s.thread.reads ++ [.header] } } := rfl

/-- What fits with more fits. -/
theorem fits_of_append {a b c : List UInt8} {n : Nat} (h : (a ++ b).length + c.length ≤ n) : a.length + b.length ≤ n := by
  rw [List.length_append] at h
  omega

theorem bytes_eq {username password vhost : List UInt8} {x : BrokerScript Γ} (y : ClientFrames Γ username password vhost x) :
    y.bytes = [] ++ protocolHeader ++ y.startOk.sequence Γ.constants ++ y.tuneOk.sequence Γ.constants ++
      y.openMethod.sequence Γ.constants := by
  simp [ClientFrames.bytes, ClientFrames.frames]

/-- What a handshake that succeeds was. -/
theorem of_connect {resolved : Option (List Bool)} {username password vhost incoming : List UInt8} {breaksAfter : Option Nat}
    {s' : ConnectionImpl} (h : connect Γ B resolved username password vhost (.create incoming breaksAfter) = .ok () s') :
    ∃ (x : BrokerScript Γ) (y : ClientFrames Γ username password vhost x) (rest : List UInt8),
      (∃ endpoints, resolved = some endpoints ∧ true ∈ endpoints) ∧ incoming = x.bytes ++ rest ∧
      Answers B x.mechanisms username password ∧ validateShortstring vhost = .ok () ∧
      (∀ n, breaksAfter = some n → y.bytes.length ≤ n) ∧ s' = opened x y rest breaksAfter := by
  obtain ⟨⟨⟩, s₀, hopen, h⟩ := Prog.bind_eq_ok.mp h
  obtain ⟨⟨⟩, s₁, hwrite, h⟩ := Prog.bind_eq_ok.mp h
  obtain ⟨hendpoint, hfits₀, rfl⟩ := greet_eq_ok.mp (Prog.bind_eq_ok.mpr ⟨⟨⟩, s₀, hopen, hwrite⟩)
  -- The broker says `start`, and the client answers.
  obtain ⟨start, s₂, hstart, h⟩ := Prog.bind_eq_ok.mp h
  obtain ⟨-, f₁, rest₁, b₁, hin₁, hsays₁, -, rfl⟩ := of_readMethod hstart
  obtain ⟨major, minor, serverProperties, mechanisms, locales, rfl⟩ := hsays₁.start
  obtain ⟨_, _, hrun, h⟩ := Prog.bind_eq_ok.mp h
  obtain ⟨hversion, rfl⟩ := attempt_eq_ok.mp hrun
  rw [checkVersion_eq, Except.ok.injEq] at hversion
  subst hversion
  by_cases hv : 0 = major ∧ 9 = minor
  swap
  · rw [decide_eq_false hv] at h
    cases h
  obtain ⟨rfl, rfl⟩ := hv
  obtain ⟨m₁, _, hrun, h⟩ := Prog.bind_eq_ok.mp h
  obtain ⟨hmake, rfl⟩ := attempt_eq_ok.mp hrun
  obtain ⟨hanswers, rfl⟩ := (makeStartOk_eq_ok rfl).mp hmake
  obtain ⟨⟨⟩, _, hsend, h⟩ := Prog.bind_eq_ok.mp h
  obtain ⟨g₁, hg₁, -, hfits₁, rfl⟩ := writeMethod_eq_ok.mp hsend
  -- The broker says `tune`, and the client answers and goes on.
  obtain ⟨tune, _, htune, h⟩ := Prog.bind_eq_ok.mp h
  obtain ⟨-, f₂, rest₂, b₂, hin₂, hsays₂, -, rfl⟩ := of_readMethod htune
  obtain ⟨channelMax, frameMax, heartbeat, rfl⟩ := hsays₂.tune
  obtain ⟨m₂, _, hrun, h⟩ := Prog.bind_eq_ok.mp h
  obtain ⟨hmake, rfl⟩ := attempt_eq_ok.mp hrun
  obtain rfl := Except.ok.inj ((makeTuneOk_eq rfl).symm.trans hmake)
  obtain ⟨⟨⟩, _, hsend, h⟩ := Prog.bind_eq_ok.mp h
  obtain ⟨g₂, hg₂, -, hfits₂, rfl⟩ := writeMethod_eq_ok.mp hsend
  obtain ⟨m₃, _, hrun, h⟩ := Prog.bind_eq_ok.mp h
  obtain ⟨hmake, rfl⟩ := attempt_eq_ok.mp hrun
  obtain ⟨hvhost, rfl⟩ := makeOpen_eq_ok.mp hmake
  obtain ⟨⟨⟩, _, hsend, h⟩ := Prog.bind_eq_ok.mp h
  obtain ⟨g₃, hg₃, -, hfits₃, rfl⟩ := writeMethod_eq_ok.mp hsend
  -- The broker says `open_ok`.
  obtain ⟨openOk, _, hopenOk, h⟩ := Prog.bind_eq_ok.mp h
  obtain ⟨-, f₃, rest₃, b₃, hin₃, hsays₃, htype, rfl⟩ := of_readMethod hopenOk
  rw [startLoop_eq] at h
  cases h
  let x : BrokerScript Γ := ⟨serverProperties, mechanisms, locales, channelMax, frameMax, heartbeat, openOk, f₁, f₂, f₃,
    hsays₁, hsays₂, hsays₃⟩
  let y : ClientFrames Γ username password vhost x := ⟨g₁, g₂, g₃, hg₁, hg₂, hg₃⟩
  refine ⟨x, y, rest₃, hendpoint, ?_, hanswers, hvhost, fun n hn => ?_, ?_⟩
  · change incoming = _ at hin₁
    change rest₁ = _ at hin₂
    change rest₂ = _ at hin₃
    simp [hin₁, hin₂, hin₃, x, BrokerScript.bytes]
  · rw [bytes_eq, List.length_append]
    exact hfits₃ n hn
  · unfold opened
    rw [bytes_eq, show x.openOkFrame.type = b₃.type from htype.symm]
    rfl

/-- A script that the client can follow is followed to its end. -/
theorem connect_of_script {resolved : Option (List Bool)} {username password vhost : List UInt8} {breaksAfter : Option Nat}
    (x : BrokerScript Γ) (y : ClientFrames Γ username password vhost x) (rest : List UInt8)
    (hendpoint : ∃ endpoints, resolved = some endpoints ∧ true ∈ endpoints) (hanswers : Answers B x.mechanisms username password)
    (hvhost : validateShortstring vhost = .ok ()) (hfits : ∀ n, breaksAfter = some n → y.bytes.length ≤ n) :
    connect Γ B resolved username password vhost (.create (x.bytes ++ rest) breaksAfter) = .ok () (opened x y rest breaksAfter) := by
  have hfits₃ : ∀ n, breaksAfter = some n → ([] ++ protocolHeader ++ y.startOk.sequence Γ.constants ++
      y.tuneOk.sequence Γ.constants).length + (y.openMethod.sequence Γ.constants).length ≤ n := by
    intro n hn
    rw [← List.length_append, ← bytes_eq]
    exact hfits n hn
  have hfits₂ := fun n hn => fits_of_append (hfits₃ n hn)
  have hfits₁ := fun n hn => fits_of_append (hfits₂ n hn)
  have hfits₀ := fun n hn => fits_of_append (hfits₁ n hn)
  have hgreet : (openSocket resolved >>= fun _ => write protocolHeader) (.create (x.bytes ++ rest) breaksAfter) =
      .ok () (greeted (x.bytes ++ rest) breaksAfter) := greet_eq_ok.mpr ⟨hendpoint, hfits₀, rfl⟩
  obtain ⟨⟨⟩, s₀, hopen, hwrite⟩ := Prog.bind_eq_ok.mp hgreet
  refine Prog.bind_eq_ok.mpr ⟨⟨⟩, s₀, hopen, Prog.bind_eq_ok.mpr ⟨⟨⟩, _, hwrite, ?_⟩⟩
  have hin : (greeted (x.bytes ++ rest) breaksAfter).incoming = x.startFrame.sequence Γ.constants ++
      (x.tuneFrame.sequence Γ.constants ++ (x.openOkFrame.sequence Γ.constants ++ rest)) := by
    simp [greeted, push, ConnectionImpl.create, BrokerScript.bytes]
  obtain ⟨b₁, -, hstart⟩ := readMethod_of_says rfl hin x.start_says
  refine Prog.bind_eq_ok.mpr ⟨_, _, hstart, Prog.bind_eq_ok.mpr ⟨true, _, attempt_eq_ok.mpr ⟨rfl, rfl⟩, ?_⟩⟩
  rw [if_neg (by decide)]
  refine Prog.bind_eq_ok.mpr ⟨_, _, attempt_eq_ok.mpr ⟨(makeStartOk_eq_ok rfl).mpr ⟨hanswers, rfl⟩, rfl⟩, ?_⟩
  refine Prog.bind_eq_ok.mpr ⟨⟨⟩, _, writeMethod_eq_ok.mpr ⟨y.startOk, y.startOk_made, rfl, hfits₁, rfl⟩, ?_⟩
  let s₁ := ((greeted (x.bytes ++ rest) breaksAfter).received b₁
    (x.tuneFrame.sequence Γ.constants ++ (x.openOkFrame.sequence Γ.constants ++ rest))).wrote Γ y.startOk
  obtain ⟨b₂, -, htune⟩ := readMethod_of_says (s := s₁) rfl rfl x.tune_says
  refine Prog.bind_eq_ok.mpr ⟨_, _, htune, ?_⟩
  refine Prog.bind_eq_ok.mpr ⟨_, _, attempt_eq_ok.mpr ⟨makeTuneOk_eq rfl, rfl⟩, ?_⟩
  refine Prog.bind_eq_ok.mpr ⟨⟨⟩, _, writeMethod_eq_ok.mpr ⟨y.tuneOk, y.tuneOk_made, rfl, hfits₂, rfl⟩, ?_⟩
  refine Prog.bind_eq_ok.mpr ⟨_, _, attempt_eq_ok.mpr ⟨makeOpen_eq_ok.mpr ⟨hvhost, rfl⟩, rfl⟩, ?_⟩
  refine Prog.bind_eq_ok.mpr ⟨⟨⟩, _, writeMethod_eq_ok.mpr ⟨y.openMethod, y.openMethod_made, rfl, hfits₃, rfl⟩, ?_⟩
  let s₂ := ((s₁.received b₂ (x.openOkFrame.sequence Γ.constants ++ rest)).wrote Γ y.tuneOk).wrote Γ y.openMethod
  obtain ⟨b₃, htype, hopenOk⟩ := readMethod_of_says (s := s₂) rfl rfl x.openOk_says
  refine Prog.bind_eq_ok.mpr ⟨_, _, hopenOk, ?_⟩
  rw [startLoop_eq]
  unfold opened
  rw [bytes_eq, ← htype]
  rfl

/-! ### More bytes from the broker -/

/-- The broker says more. -/
def feed (more : List UInt8) (s : ConnectionImpl) : ConnectionImpl := { s with incoming := s.incoming ++ more }

/-- The two directions of the connection. -/
def port : Port ConnectionImpl UInt8 UInt8 := ⟨feed, fun s => s.thread.socket⟩

open Prog (Causal)

theorem causal_attempt {α : Type} (x : Except Exception α) : Causal port (attempt x) := Causal.lift _ fun _ _ => rfl

theorem causal_write (bytes : List UInt8) : Causal port (write bytes) := by
  refine Causal.of_mapState (fun s => ?_) (fun _ _ => rfl) fun more s => ?_
  · have hends := write_ends bytes s
    cases h : write bytes s with
    | undefined => trivial
    | _ =>
      rw [h] at hends
      obtain ⟨p, -, rfl⟩ := hends
      exact List.prefix_append _ _
  · have htaken : (feed more s).taken bytes = s.taken bytes := rfl
    have hsocket : (feed more s).socket = s.socket := rfl
    simp only [write, port, hsocket, htaken]
    by_cases hs : s.socket = .connected
    · rw [if_pos hs, if_pos hs]
      by_cases hall : s.taken bytes = bytes
      · rw [if_pos hall, if_pos hall]
        rfl
      · rw [if_neg hall, if_neg hall]
        rfl
    · rw [if_neg hs, if_neg hs]
      rfl

theorem grows_of_quiet {α : Type} {x : Prog ConnectException ConnectionImpl α} (hx : Quiet x) {s t : ConnectionImpl}
    (h : s.thread.socket = t.thread.socket) : (x t).Leaves (Prog.Port.Grows port s) :=
  ((hx t).imp fun _ hu => Prog.Port.grows_of_eq (P := port) (h.trans hu.symm)).leaves

theorem causal_modify {f : ConnectionImpl → ConnectionImpl} (hsent : ∀ s, (f s).thread.socket = s.thread.socket)
    (hfeed : ∀ more s, f (feed more s) = feed more (f s)) :
    Causal port (modify f : Prog ConnectException ConnectionImpl PUnit) := by
  refine Causal.of_mapState (fun s => ?_) (fun _ _ => rfl) fun more s => ?_
  · exact Prog.Port.grows_of_eq (P := port) (hsent s).symm
  · simp [port, hfeed]

/-- A frame that was read is read again when more bytes follow. -/
theorem causal_readFrame : Causal port (ConnectionImpl.readFrame Γ) where
  grows s := grows_of_quiet (quiet_readFrame Γ) rfl
  ok {s t f} h more := by
    unfold ConnectionImpl.readFrame at h
    split at h
    · rename_i hs
      split at h
      · rename_i f' builder rest hr
        cases h
        obtain ⟨p, left, hin, rfl, hlen, rfl⟩ := parses_readFrame Γ.constants _ _ _ _ hr
        obtain ⟨builder', hreads⟩ := reads_readFrame Γ.constants s.thread.builder f hlen
        obtain ⟨-, rfl⟩ : f = f ∧ builder = builder' := by
          rw [hin, hreads] at hr
          simpa [eq_comm] using hr
        have hmore := hreads (left ++ more)
        rw [← List.append_assoc, ← hin] at hmore
        unfold ConnectionImpl.readFrame
        simp only [port, feed, hs, if_true]
        rw [hmore]
        rfl
      · cases h
    · cases h
  throws {s t e} h more := by
    have hquiet := quiet_readFrame Γ s
    rw [h] at hquiet
    exact grows_of_quiet (quiet_readFrame Γ) hquiet

theorem causal_openSocket (resolved : Option (List Bool)) : Causal port (openSocket resolved) := by
  refine Causal.of_mapState (fun s => grows_of_quiet (quiet_openSocket resolved) rfl) (fun _ _ => rfl) fun more s => ?_
  cases resolved with
  | none => rfl
  | some endpoints =>
    simp only [openSocket, Prog.bind_apply, connectLoop_eq, Prog.get_apply, Prog.ite_apply, port, feed]
    generalize (if true ∈ endpoints then SocketState.connected else if endpoints = [] then s.socket else .opened) = socket
    split
    · rfl
    · rfl

theorem causal_readMethod (d : MethodDesc) : Causal port (readMethod Γ d) :=
  causal_readFrame.bind fun _ => causal_attempt _

theorem causal_writeMethod (m : Method) : Causal port (writeMethod Γ m) := by
  refine (causal_attempt _).bind fun fr => (causal_modify ?_ ?_).bind fun _ => causal_write (fr.sequence Γ.constants)
  · exact fun _ => rfl
  · exact fun _ _ => rfl

theorem causal_refuseVersion : Causal port refuseVersion := by
  refine (causal_modify ?_ ?_).bind fun _ => Causal.throw _ fun _ _ => rfl
  · exact fun _ => rfl
  · exact fun _ _ => rfl

theorem causal_startLoop : Causal port (onThread ConnectionManager.startAsyncReadLoop) :=
  Causal.of_mapState (fun _ => List.prefix_refl _) (fun _ _ => rfl) fun _ _ => rfl

theorem causal_connect (resolved : Option (List Bool)) (username password vhost : List UInt8) :
    Causal port (connect Γ B resolved username password vhost) := by
  refine (causal_openSocket resolved).bind fun _ => (causal_write _).bind fun _ => ?_
  refine (causal_readMethod Γ.start).bind fun start => (causal_attempt _).bind fun version => ?_
  refine causal_refuseVersion.ite ?_
  refine (causal_attempt _).bind fun startOk => (causal_writeMethod _).bind fun _ => ?_
  refine (causal_readMethod Γ.tune).bind fun tune => (causal_attempt _).bind fun tuneOk => (causal_writeMethod _).bind fun _ => ?_
  refine (causal_attempt _).bind fun openMethod => (causal_writeMethod _).bind fun _ => ?_
  exact (causal_readMethod Γ.openOk).bind fun _ => causal_startLoop

/-- The client's frames are read as the methods they are made from. -/
theorem forall₂_readAs {username password vhost : List UInt8} {x : BrokerScript Γ} (y : ClientFrames Γ username password vhost x)
    (hanswers : Answers B x.mechanisms username password) (hvhost : validateShortstring vhost = .ok ()) :
    List.Forall₂ (ReadAs Γ) y.frames
      [startOkOf Γ username password, tuneOkOf Γ x.channelMax x.frameMax x.heartbeat, openOf Γ vhost] := by
  obtain ⟨g₁, hg₁, hread₁⟩ := exists_startOk Γ (length_of_startOk hanswers.length y.startOk_made)
  obtain ⟨g₂, hg₂, hread₂⟩ := exists_tuneOk Γ x.channelMax x.frameMax x.heartbeat
  obtain ⟨g₃, hg₃, hread₃⟩ := exists_open Γ hvhost
  obtain rfl := Except.ok.inj (y.startOk_made.symm.trans hg₁)
  obtain rfl := Except.ok.inj (y.tuneOk_made.symm.trans hg₂)
  obtain rfl := Except.ok.inj (y.openMethod_made.symm.trans hg₃)
  exact .cons hread₁ (.cons hread₂ (.cons hread₃ .nil))

theorem length_of_readAs {frames : List Frame} {methods : List Method} (h : List.Forall₂ (ReadAs Γ) frames methods) :
    ∀ f ∈ frames, f.payload.length < 2 ^ 32 := by
  intro f hf
  obtain ⟨i, hi, rfl⟩ := List.getElem_of_mem hf
  exact (h.get hi (h.length_eq ▸ hi)).length

end HandshakeAux

open HandshakeAux

/-- `connect` returns exactly when some endpoint takes the connection, the broker's bytes open with frames that are read as a
`start` of version 0-9 that offers PLAIN, a `tune` and an `open_ok`, the user has a PLAIN response and the virtual host is a
short string, and the broker takes all that the client sends: the protocol header, `start_ok`, a `tune_ok` with the limits of
the broker, and `open`. It leaves the read loop started, and the rest of the broker's bytes to it. -/
theorem connect_returns_iff (Γ : ConnectionEnv) (B : Sasl.StringAlgo) (resolved : Option (List Bool))
    (username password vhost incoming : List UInt8) (breaksAfter : Option Nat) (s' : ConnectionImpl) :
    connect Γ B resolved username password vhost (.create incoming breaksAfter) = .ok () s' ↔
      ∃ (x : BrokerScript Γ) (y : ClientFrames Γ username password vhost x) (rest : List UInt8),
        (∃ endpoints, resolved = some endpoints ∧ true ∈ endpoints) ∧ incoming = x.bytes ++ rest ∧
        Answers B x.mechanisms username password ∧ validateShortstring vhost = .ok () ∧
        (∀ n, breaksAfter = some n → y.bytes.length ≤ n) ∧ s' = opened x y rest breaksAfter := by
  constructor
  · exact of_connect
  · rintro ⟨x, y, rest, hendpoint, rfl, hanswers, hvhost, hfits, rfl⟩
    exact connect_of_script x y rest hendpoint hanswers hvhost hfits

/-- When `connect` returns, both sides know the same: behind the protocol header the broker's reader finds three method
frames on channel 0 and nothing else, which are read as a `start_ok` with the client properties, PLAIN and the user's
credentials, a `tune_ok` with the limits that the broker's own `tune` named, and an `open` of the virtual host. -/
theorem handshake_agreement (Γ : ConnectionEnv) (B : Sasl.StringAlgo) {resolved : Option (List Bool)}
    {username password vhost incoming : List UInt8} {breaksAfter : Option Nat} {s' : ConnectionImpl}
    (h : connect Γ B resolved username password vhost (.create incoming breaksAfter) = .ok () s') (builder : FrameBuilder) :
    ∃ (x : BrokerScript Γ) (frames : List Frame), incoming = x.bytes ++ s'.incoming ∧
      s'.thread.socket.take 8 = protocolHeader ∧
      readFrames Γ.constants 3 builder (s'.thread.socket.drop 8) = (frames, []) ∧
      List.Forall₂ (ReadAs Γ) frames
        [startOkOf Γ username password, tuneOkOf Γ x.channelMax x.frameMax x.heartbeat, openOf Γ vhost] := by
  obtain ⟨x, y, rest, -, hincoming, hanswers, hvhost, -, rfl⟩ := of_connect h
  have hread := forall₂_readAs y hanswers hvhost
  refine ⟨x, y.frames, hincoming, List.take_left' rfl, ?_, hread⟩
  have hdrop : (opened x y rest breaksAfter).thread.socket.drop 8 = y.frames.flatMap (·.sequence Γ.constants) :=
    List.drop_left' rfl
  rw [hdrop]
  exact FramingAux.readFrames_flatMap Γ.constants y.frames (length_of_readAs hread) 3 (le_of_eq rfl) builder

/-- A broker that says `start` 0-9 with two mechanisms, `tune` and `open_ok`. -/
def sampleScript : BrokerScript .sample where
  serverProperties := []
  mechanisms := bytesOf "AMQPLAIN PLAIN"
  locales := []
  channelMax := 2047
  frameMax := 131072
  heartbeat := 60
  openOk := .create EnvSample.connection EnvSample.openOk
  startFrame := ⟨.method, 0, [0, 10, 0, 10, 0, 9, 0, 0, 0, 0, 0, 0, 0, 14] ++ bytesOf "AMQPLAIN PLAIN" ++ [0, 0, 0, 0]⟩
  tuneFrame := ⟨.method, 0, [0, 10, 0, 30, 7, 255, 0, 2, 0, 0, 0, 60]⟩
  openOkFrame := ⟨.method, 0, [0, 10, 0, 41, 0]⟩
  start_says := ⟨by decide, rfl, by decide⟩
  tune_says := ⟨by decide, rfl, by decide⟩
  openOk_says := ⟨by decide, rfl, by decide⟩

/-- The handshake with the broker of `sampleScript`. -/
theorem exists_connect_sample : ∃ (y : ClientFrames .sample [117] [112] [47] sampleScript),
    connect .sample classicAlgo (some [false, true]) [117] [112] [47] (.create (sampleScript.bytes ++ [9]) none) =
      .ok () (opened sampleScript y [9] none) := by
  obtain ⟨g₁, hg₁, -⟩ := @exists_startOk .sample [117] [112] (by decide)
  obtain ⟨g₂, hg₂, -⟩ := exists_tuneOk .sample sampleScript.channelMax sampleScript.frameMax sampleScript.heartbeat
  obtain ⟨g₃, hg₃, -⟩ := @exists_open .sample [47] rfl
  have hplain : Split.Delimited classicAlgo.isSpace Sasl.plainMechanism (bytesOf "AMQPLAIN PLAIN") := by
    refine ⟨bytesOf "AMQPLAIN ", [], by decide, fun a ha => ?_, by simp⟩
    obtain rfl : 32 = a := Option.some.inj ha
    rfl
  exact ⟨⟨g₁, g₂, g₃, hg₁, hg₂, hg₃⟩, connect_of_script _ _ _ ⟨_, rfl, by decide⟩
    ⟨hplain, by decide, by decide, by decide⟩ rfl nofun⟩

/-- The handshake with this broker, over the second of two endpoints: one byte more is left to the read loop. -/
theorem handshake_agreement_sample :
    ∃ s', connect .sample classicAlgo (some [false, true]) [117] [112] [47] (.create (sampleScript.bytes ++ [9]) none) = .ok () s' ∧
      ∃ x frames, sampleScript.bytes ++ [9] = BrokerScript.bytes (Γ := .sample) x ++ s'.incoming ∧
        readFrames .sample 3 .create (s'.thread.socket.drop 8) = (frames, []) ∧ frames.length = 3 := by
  obtain ⟨y, h⟩ := exists_connect_sample
  obtain ⟨x, frames, hincoming, -, hread, hall⟩ := handshake_agreement .sample classicAlgo h .create
  exact ⟨_, h, x, frames, hincoming, hread, hall.length_eq⟩

/-- Whatever the broker sends and however `connect` ends, the broker has taken a prefix of what the client may send in
answer to the broker's bytes: the credentials leave only after a whole `start` of version 0-9 that offers PLAIN, and the
limits and the virtual host only after a whole `tune` behind it. -/
theorem connect_sends_in_turn (Γ : ConnectionEnv) (B : Sasl.StringAlgo) (resolved : Option (List Bool))
    (username password vhost incoming : List UInt8) (breaksAfter : Option Nat) :
    (connect Γ B resolved username password vhost (.create incoming breaksAfter)).Ends fun s =>
      ∃ sent, MaySend Γ B username password vhost incoming sent ∧ s.thread.socket <+: sent := by
  let P : List UInt8 → Prop := fun l => ∃ sent, MaySend Γ B username password vhost incoming sent ∧ l <+: sent
  have hheader : MaySend Γ B username password vhost incoming protocolHeader := .header incoming
  have hnothing : P [] := ⟨_, hheader, List.nil_prefix⟩
  have hgreeted : P (greeted incoming breaksAfter).thread.socket := ⟨_, hheader, List.prefix_refl _⟩
  refine (quiet_openSocket resolved).ends_bind (P := P) hnothing fun _ s₀ hopen hs₀ => ?_
  refine Prog.ends_bind (fun _ s₁ hwrite => ?_) (fun e t h => ?_) fun h => ?_
  rotate_left
  · have hends := write_ends protocolHeader s₀
    rw [h] at hends
    obtain ⟨p, hp, rfl⟩ := hends
    exact ⟨_, hheader, by rw [push, hs₀]; exact hp⟩
  · have hends := write_ends protocolHeader s₀
    rw [h] at hends
    exact hends
  obtain ⟨-, -, rfl⟩ := greet_eq_ok.mp (Prog.bind_eq_ok.mpr ⟨⟨⟩, s₀, hopen, hwrite⟩)
  -- The broker says something: only a `start` of version 0-9 is answered.
  refine (quiet_readMethod Γ Γ.start).ends_bind (P := P) hgreeted fun start s₂ hstart _ => ?_
  obtain ⟨-, f₁, rest₁, b₁, hin₁, hsays₁, -, rfl⟩ := of_readMethod hstart
  obtain ⟨major, minor, serverProperties, mechanisms, locales, rfl⟩ := hsays₁.start
  refine (quiet_attempt _).ends_bind (P := P) hgreeted fun ok s₃ hrun _ => ?_
  obtain ⟨hversion, rfl⟩ := attempt_eq_ok.mp hrun
  obtain rfl := Except.ok.inj (checkVersion_eq.symm.trans hversion)
  by_cases hv : 0 = major ∧ 9 = minor
  swap
  · rw [decide_eq_false hv]
    exact hgreeted
  obtain ⟨rfl, rfl⟩ := hv
  refine (quiet_attempt _).ends_bind (P := P) hgreeted fun m₁ s₄ hrun _ => ?_
  obtain ⟨hmake, rfl⟩ := attempt_eq_ok.mp hrun
  obtain ⟨hanswers, rfl⟩ := (makeStartOk_eq_ok rfl).mp hmake
  change incoming = _ at hin₁
  subst hin₁
  refine ends_writeMethod_bind (P := P) hgreeted (fun g₁ hg₁ p hp => ?_) fun g₁ hg₁ => ?_
  · exact ⟨_, .startOk rest₁ ⟨⟨_, _, _, hsays₁, hanswers⟩, hg₁⟩, (List.prefix_append_right_inj _).mpr hp⟩
  have hstarted : P (protocolHeader ++ g₁.sequence Γ.constants) :=
    ⟨_, .startOk rest₁ ⟨⟨_, _, _, hsays₁, hanswers⟩, hg₁⟩, List.prefix_refl _⟩
  -- The broker says something again: only a `tune` is answered.
  refine (quiet_readMethod Γ Γ.tune).ends_bind (P := P) hstarted fun tune s₅ htune _ => ?_
  obtain ⟨-, f₂, rest₂, b₂, hin₂, hsays₂, -, rfl⟩ := of_readMethod htune
  obtain ⟨channelMax, frameMax, heartbeat, rfl⟩ := hsays₂.tune
  change rest₁ = _ at hin₂
  subst hin₂
  refine (quiet_attempt _).ends_bind (P := P) hstarted fun m₂ s₆ hrun _ => ?_
  obtain ⟨hmake, rfl⟩ := attempt_eq_ok.mp hrun
  obtain rfl := Except.ok.inj ((makeTuneOk_eq rfl).symm.trans hmake)
  refine ends_writeMethod_bind (P := P) hstarted (fun g₂ hg₂ p hp => ?_) fun g₂ hg₂ => ?_
  · exact ⟨_, .tuneOk rest₂ ⟨⟨_, _, _, hsays₁, hanswers⟩, hg₁⟩ ⟨_, _, _, hsays₂, hg₂⟩, (List.prefix_append_right_inj _).mpr hp⟩
  have htuned : P (protocolHeader ++ g₁.sequence Γ.constants ++ g₂.sequence Γ.constants) :=
    ⟨_, .tuneOk rest₂ ⟨⟨_, _, _, hsays₁, hanswers⟩, hg₁⟩ ⟨_, _, _, hsays₂, hg₂⟩, List.prefix_refl _⟩
  refine (quiet_attempt _).ends_bind (P := P) htuned fun m₃ s₇ hrun _ => ?_
  obtain ⟨hmake, rfl⟩ := attempt_eq_ok.mp hrun
  obtain ⟨hvhost, rfl⟩ := makeOpen_eq_ok.mp hmake
  refine ends_writeMethod_bind (P := P) htuned (fun g₃ hg₃ p hp => ?_) fun g₃ hg₃ => ?_
  · exact ⟨_, .openMethod rest₂ ⟨⟨_, _, _, hsays₁, hanswers⟩, hg₁⟩ ⟨_, _, _, hsays₂, hg₂⟩ hvhost hg₃,
      (List.prefix_append_right_inj _).mpr hp⟩
  have hopened : P (protocolHeader ++ g₁.sequence Γ.constants ++ g₂.sequence Γ.constants ++ g₃.sequence Γ.constants) :=
    ⟨_, .openMethod rest₂ ⟨⟨_, _, _, hsays₁, hanswers⟩, hg₁⟩ ⟨_, _, _, hsays₂, hg₂⟩ hvhost hg₃, List.prefix_refl _⟩
  refine (quiet_readMethod Γ Γ.openOk).ends_bind (P := P) hopened fun openOk s₈ _ hs₈ => ?_
  change P s₈.thread.socket
  rw [hs₈]
  exact hopened

/-- More bytes from the broker undo nothing. Where `connect` returned it returns with them too, in the same state, and leaves
them to the read loop; and however it ends, what it has sent is a prefix of what it sends when more bytes come. -/
theorem connect_more_input (Γ : ConnectionEnv) (B : Sasl.StringAlgo) (resolved : Option (List Bool))
    (username password vhost incoming more : List UInt8) (breaksAfter : Option Nat) :
    (∀ s', connect Γ B resolved username password vhost (.create incoming breaksAfter) = .ok () s' →
      connect Γ B resolved username password vhost (.create (incoming ++ more) breaksAfter) =
        .ok () { s' with incoming := s'.incoming ++ more }) ∧
    ∀ s t, (connect Γ B resolved username password vhost (.create incoming breaksAfter)).Ends (· = s) →
      (connect Γ B resolved username password vhost (.create (incoming ++ more) breaksAfter)).Ends (· = t) →
      s.thread.socket <+: t.thread.socket := by
  have hcausal := causal_connect (Γ := Γ) (B := B) resolved username password vhost
  have hok {s'} (h : connect Γ B resolved username password vhost (.create incoming breaksAfter) = .ok () s') :
      connect Γ B resolved username password vhost (.create (incoming ++ more) breaksAfter) = .ok () (feed more s') :=
    hcausal.ok h more
  refine ⟨fun s' => hok, fun s t hs ht => ?_⟩
  cases h : connect Γ B resolved username password vhost (.create incoming breaksAfter) with
  | ok a u =>
    rw [h] at hs
    obtain rfl : u = s := hs
    rw [hok h] at ht
    obtain rfl : feed more u = t := ht
    exact List.prefix_refl _
  | throws e u =>
    rw [h] at hs
    obtain rfl : u = s := hs
    have hleaves := hcausal.throws h more
    change (connect Γ B resolved username password vhost (.create (incoming ++ more) breaksAfter)).Leaves _ at hleaves
    cases h' : connect Γ B resolved username password vhost (.create (incoming ++ more) breaksAfter) with
    | undefined =>
      rw [h'] at ht
      exact ht.elim
    | _ =>
      rw [h'] at hleaves ht
      exact ht ▸ hleaves
  | undefined =>
    rw [h] at hs
    exact hs.elim

end Amqpp
