import Amqpp.Connection.Handshake
import Amqpp.Connection.Run
import Amqpp.Lib.Bisim

/-!
# The connection behind a handshake

`connect` leaves the members of the manager as they are when the read loop starts on a new one, but for three: the bytes that
the handshake put on the socket, the header that is left in the writer, and the type that is left in the builder. No handler
looks at the first, and the other two are overwritten before they are read. So whatever can happen to the one manager can
happen to the other.
-/

namespace Amqpp

/-- The connection manager from a given state on. -/
def sessionMachine (Γ : Env) (m : ConnectionManager) : Machine ConnectionRun ConnectionEvent :=
  { connectionMachine Γ with init := ⟨m, none⟩ }

namespace ConnectionManager

/-- The same manager behind `sent`, with a writer that has its header for the writes in flight, and a builder related by
`P`. -/
def Behind (sent : List UInt8) (P : FrameBuilder → FrameBuilder → Prop) (s t : ConnectionManager) : Prop :=
  ∃ writer builder, t = { s with socket := sent ++ s.socket, writer := writer, builder := builder } ∧
    (writer = s.writer ∨ s.writes = []) ∧ P s.builder builder

open Prog (Alike)

variable {sent : List UInt8} {P : FrameBuilder → FrameBuilder → Prop}

/-! ## Handler by handler -/

/-- A program that looks at the state first. -/
theorem Behind.get_bind {α : Type} {f : ConnectionManager → Prog Exception ConnectionManager α}
    (h : ∀ s writer builder, P s.builder builder →
      Alike (Behind sent P) (f s) (f { s with socket := sent ++ s.socket, writer := writer, builder := builder })) :
    Alike (Behind sent P) (get >>= f) (get >>= f) := by
  rintro s _ ⟨writer, builder, rfl, hwriter, hbuilder⟩
  exact h s writer builder hbuilder s _ ⟨writer, builder, rfl, hwriter, hbuilder⟩

/-- A change of members that the two managers share. -/
theorem Behind.modify {f : ConnectionManager → ConnectionManager}
    (h : ∀ s writer builder, f { s with socket := sent ++ s.socket, writer := writer, builder := builder } =
      { f s with socket := sent ++ s.socket, writer := writer, builder := builder })
    (hwrites : ∀ s, (f s).writes = s.writes) (hkeep : ∀ s, (f s).socket = s.socket ∧ (f s).writer = s.writer ∧
      (f s).builder = s.builder) :
    Alike (Behind sent P) (modify f : Prog Exception ConnectionManager PUnit) (modify f) := by
  refine Alike.modify ?_
  rintro s _ ⟨writer, builder, rfl, hwriter, hbuilder⟩
  obtain ⟨hsocket, hw, hb⟩ := hkeep s
  exact ⟨writer, builder, by rw [h, hsocket], by rwa [hw, hwrites], by rwa [hb]⟩

theorem alike_record (call : Call) : Alike (Behind sent P) (record call) (record call) :=
  Behind.modify (fun _ _ _ => rfl) (fun _ => rfl) fun _ => ⟨rfl, rfl, rfl⟩

theorem alike_allocate (fr : Frame) : Alike (Behind sent P) (allocate fr) (allocate fr) := by
  rintro s _ ⟨writer, builder, rfl, hwriter, hbuilder⟩
  exact .ok _ ⟨writer, builder, rfl, hwriter, hbuilder⟩

theorem alike_zoomChannel {α : Type} (i : Nat) {put : ChannelImpl → ConnectionManager → ConnectionManager}
    (hput : ∀ c s t, Behind sent P s t → Behind sent P (put c s) (put c t)) (x : Prog Exception ChannelImpl α) :
    Alike (Behind sent P) (Prog.zoom (channelAt i) put x) (Prog.zoom (channelAt i) put x) := by
  refine Alike.zoom ?_ hput
  rintro s _ ⟨writer, builder, rfl, -, -⟩
  rfl

theorem Behind.setChannel (i : Nat) (c : ChannelImpl) (s t : ConnectionManager) (h : Behind sent P s t) :
    Behind sent P (s.setChannel i c) (t.setChannel i c) := by
  obtain ⟨writer, builder, rfl, hwriter, hbuilder⟩ := h
  exact ⟨writer, builder, rfl, hwriter, hbuilder⟩

variable (Γ : Env)

theorem alike_createFrame (channel : UInt16) (method : Method) :
    Alike (Behind sent P) (createFrame Γ channel method) (createFrame Γ channel method) :=
  (Alike.lift _).bind fun fr => alike_allocate fr

/-- A write that starts has its header in both writers. -/
theorem alike_writeFront : Alike (Behind sent P) (writeFront Γ) (writeFront Γ) := by
  refine Behind.get_bind fun s writer builder _ => ?_
  dsimp only
  cases s.writeQueue with
  | nil => exact fun _ _ _ => .undefined
  | cons fr queue =>
    refine Alike.modify ?_
    rintro s _ ⟨writer, builder, rfl, -, hbuilder⟩
    exact ⟨_, builder, rfl, Or.inl rfl, hbuilder⟩

theorem alike_beginWriteFrame (fr : FramePtr) : Alike (Behind sent P) (beginWriteFrame Γ fr) (beginWriteFrame Γ fr) := by
  refine (alike_record _).bind fun _ => Behind.get_bind fun s writer builder _ => ?_
  dsimp only
  split
  · refine Alike.bind ?_ fun _ => ?_
    · exact Behind.modify (fun _ _ _ => rfl) (fun _ => rfl) fun _ => ⟨rfl, rfl, rfl⟩
    · split
      · exact Alike.pure _
      · exact alike_writeFront Γ
  · exact Alike.pure _

theorem alike_closeHandler (i : Nat) : Alike (Behind sent P) (closeHandler i) (closeHandler i) := by
  refine Behind.get_bind fun s writer builder _ => ?_
  dsimp only
  split
  · exact (alike_record _).bind fun _ => Alike.throw _
  · exact (alike_record _).bind fun _ => alike_zoomChannel i (Behind.setChannel i) _
  · exact Alike.pure _

theorem alike_closeEach (is : List Nat) : Alike (Behind sent P) (closeEach is) (closeEach is) := by
  induction is with
  | nil => exact Alike.pure _
  | cons i is ih => exact (alike_closeHandler i).bind fun _ => ih

theorem alike_onSocketClose : Alike (Behind sent P) onSocketClose onSocketClose := by
  refine Alike.bind ?_ fun _ => Behind.get_bind fun s writer builder _ => ?_
  · exact Behind.modify (fun _ _ _ => rfl) (fun _ => rfl) fun _ => ⟨rfl, rfl, rfl⟩
  · dsimp only
    split
    · exact fun _ _ _ => .undefined
    · exact alike_closeEach _

theorem alike_onWriteFrame (ok : Bool) : Alike (Behind sent P) (onWriteFrame Γ ok) (onWriteFrame Γ ok) := by
  cases ok with
  | false => exact alike_onSocketClose
  | true =>
    refine Behind.get_bind fun s writer builder _ => ?_
    dsimp only
    split
    · exact alike_writeFront Γ
    · exact Behind.modify (fun _ _ _ => rfl) (fun _ => rfl) fun _ => ⟨rfl, rfl, rfl⟩

theorem alike_handleDeadChannelFrame (fr : Frame) :
    Alike (Behind sent P) (handleDeadChannelFrame Γ fr) (handleDeadChannelFrame Γ fr) := by
  refine (alike_record _).bind fun _ => ?_
  split
  · refine (Alike.lift _).bind fun method => ?_
    split
    · exact (alike_createFrame Γ _ _).bind fun fr => alike_beginWriteFrame Γ fr
    · exact Alike.pure _
  · exact Alike.pure _

theorem alike_processFrame (i : Nat) (fr : Frame) : Alike (Behind sent P) (processFrame Γ i fr) (processFrame Γ i fr) := by
  refine (alike_record _).bind fun _ => Behind.get_bind fun s writer builder _ => ?_
  dsimp only
  split
  · exact Alike.throw _
  · exact alike_zoomChannel i (Behind.setChannel i) _

theorem alike_dispatchFrame (fr : Frame) : Alike (Behind sent P) (dispatchFrame Γ fr) (dispatchFrame Γ fr) := by
  refine Alike.bind (Behind.get_bind fun s writer builder _ => ?_) fun _ => Behind.get_bind fun s writer builder _ => ?_
  · dsimp only
    split
    · exact alike_handleDeadChannelFrame Γ fr
    · exact Alike.pure _
  · dsimp only
    split
    · exact fun _ _ _ => .undefined
    · exact alike_handleDeadChannelFrame Γ fr
    · refine Alike.tryCatch (alike_processFrame Γ _ fr) fun e => ?_
      split
      · exact Alike.pure _
      · exact Alike.throw _

/-! ## Channels -/

theorem alike_setChannelPromise (promise : Nat) (set : Promise Exception Nat → Except Exception (Promise Exception Nat)) :
    Alike (Behind sent P) (setChannelPromise promise set) (setChannelPromise promise set) := by
  refine Alike.update ?_
  rintro s _ ⟨writer, builder, rfl, hwriter, hbuilder⟩
  dsimp only
  cases s.channelPromises[promise]? with
  | none => exact Or.inr ⟨_, rfl, rfl⟩
  | some p =>
    dsimp only
    cases set p with
    | ok p' => exact Or.inl ⟨_, _, rfl, rfl, writer, builder, rfl, hwriter, hbuilder⟩
    | error e => exact Or.inr ⟨e, rfl, rfl⟩

theorem alike_releaseChannel (i : Nat) : Alike (Behind sent P) (releaseChannel Γ i) (releaseChannel Γ i) := by
  refine alike_zoomChannel i ?_ _
  rintro _ s _ ⟨writer, builder, rfl, hwriter, hbuilder⟩
  exact ⟨writer, builder, rfl, hwriter, hbuilder⟩

theorem alike_createNextChannel : Alike (Behind sent P) createNextChannel createNextChannel := by
  refine Behind.get_bind fun s writer builder _ => ?_
  dsimp only
  split
  · exact Alike.throw _
  · refine Alike.bind ?_ fun _ => Alike.pure _
    exact Behind.modify (fun _ _ _ => rfl) (fun _ => rfl) fun _ => ⟨rfl, rfl, rfl⟩

theorem alike_startOpenChannel (promise : Nat) : Alike (Behind sent P) (startOpenChannel Γ promise) (startOpenChannel Γ promise) := by
  refine Behind.get_bind fun s writer builder _ => ?_
  dsimp only
  refine Alike.tryCatch ?_ fun e => ?_
  · exact alike_createNextChannel.bind fun i => (alike_createFrame Γ _ _).bind fun fr => (alike_beginWriteFrame Γ fr).bind fun _ =>
      alike_setChannelPromise promise _
  · split
    · refine (alike_setChannelPromise promise _).bind fun _ => Behind.get_bind fun s writer builder _ => ?_
      dsimp only
      split
      · exact alike_releaseChannel Γ _
      · exact Alike.pure _
    · exact Alike.throw _

/-! ## Tasks -/

theorem alike_runBeginWriteFrame (fr : Frame) : Alike (Behind sent P) (runBeginWriteFrame Γ fr) (runBeginWriteFrame Γ fr) :=
  (alike_allocate fr).bind fun fr => alike_beginWriteFrame Γ fr

theorem alike_runStartOpenChannel : Alike (Behind sent P) (runStartOpenChannel Γ) (runStartOpenChannel Γ) := by
  refine Behind.get_bind fun s writer builder _ => ?_
  dsimp only
  refine Alike.bind ?_ fun _ => alike_startOpenChannel Γ _
  exact Behind.modify (fun _ _ _ => rfl) (fun _ => rfl) fun _ => ⟨rfl, rfl, rfl⟩

/-- The socket takes the same byte. -/
theorem Behind.transmit {s t : ConnectionManager} (h : Behind sent P s t) (K : Constants) (i : Nat) :
    Option.Rel (Behind sent P) (s.transmit K i) (t.transmit K i) := by
  obtain ⟨writer, builder, rfl, hwriter, hbuilder⟩ := h
  unfold ConnectionManager.transmit
  dsimp only
  cases hw : s.writes[i]? with
  | none => exact .none
  | some w =>
    obtain rfl : writer = s.writer := by
      refine hwriter.resolve_right fun hnil => ?_
      rw [hnil] at hw
      cases hw
    have hbyte : w.nextByte K { s with socket := sent ++ s.socket, writer := s.writer, builder := builder } = w.nextByte K s := rfl
    dsimp only [Option.bind_eq_bind, Option.bind_some]
    rw [hbyte]
    cases w.nextByte K s with
    | none => exact .none
    | some b => exact .some ⟨s.writer, builder, by simp only [List.append_assoc], Or.inl rfl, hbuilder⟩

/-! ## Reading -/

theorem alike_receiveFrame : Alike (Behind sent Eq) (receiveFrame Γ) (receiveFrame Γ) := by
  refine Behind.get_bind fun s writer builder hbuilder => ?_
  obtain rfl := hbuilder
  refine (Alike.lift _).bind fun fr => (alike_dispatchFrame Γ fr).bind fun _ => Alike.modify ?_
  rintro s _ ⟨writer, builder, rfl, hwriter, rfl⟩
  exact ⟨writer, _, rfl, hwriter, rfl⟩

theorem alike_beginBodyRead : Alike (Behind sent Eq) (beginBodyRead Γ) (beginBodyRead Γ) := by
  refine Behind.get_bind fun s writer builder hbuilder => ?_
  obtain rfl := hbuilder
  refine (Alike.lift _).bind fun fr => Alike.modify ?_
  rintro s _ ⟨writer, builder, rfl, hwriter, rfl⟩
  exact ⟨writer, _, rfl, hwriter, rfl⟩

theorem alike_onFrameHeaderRead : Alike (Behind sent Eq) (onFrameHeaderRead Γ true) (onFrameHeaderRead Γ true) := by
  refine Behind.get_bind fun s writer builder hbuilder => ?_
  obtain rfl := hbuilder
  refine (Alike.lift _).bind fun x => Alike.bind (Alike.modify ?_) fun _ => ?_
  · rintro s _ ⟨writer, builder, rfl, hwriter, rfl⟩
    exact ⟨writer, _, rfl, hwriter, rfl⟩
  · split
    · exact alike_beginBodyRead Γ
    · exact alike_receiveFrame Γ

end ConnectionManager

end Amqpp
