import Amqpp.Connection.Session
import Amqpp.Theorems.Delivery
import Amqpp.Theorems.Handshake

/-!
# Whole sessions

A session is a `connect` that returned and a run of the connection behind it. It can do what the connection manager can do
from the start of its read loop on, no more and no less, so what is proved of runs of the manager holds of sessions. From the
first byte to the last, what the broker sends is one sequence of frames, and so is what the client sends behind the protocol
header.
-/

namespace Amqpp

open ConnectionImpl

/-- Two runs that ended the same way, if they ended, with related managers. -/
def Together (R : ConnectionManager → ConnectionManager → Prop) (r r' : ConnectionRun) : Prop :=
  R r.manager r'.manager ∧ r'.escaped = r.escaped

/-- The builders differ in their types at most. -/
def UpToType (b b' : FrameBuilder) : Prop := ∃ type, b' = { b with type := type }

/-- Behind `sent` the frames are sent in order. -/
def ConnectionManager.SendsAfter (K : Constants) (sent : List UInt8) (s : ConnectionManager) : Prop :=
  ∃ l, s.socket = sent ++ l ∧ SendsInOrder K { s with socket := l }

namespace SessionAux

open ConnectionManager
open Prog (Alike)

variable {Γ : Env} {sent : List UInt8} {P : FrameBuilder → FrameBuilder → Prop}

/-! ### The two builders -/

/-- Another type is left in a builder that was reset. -/
def Stale (b b' : FrameBuilder) : Prop := b.state = .invalid ∧ ∃ type, b' = { b with type := type }

/-- Neither validates a header any other way. -/
theorem isBodyReadRequired_stale {b b' : FrameBuilder} (h : Stale b b') (K : Constants) :
    b'.isBodyReadRequired K = b.isBodyReadRequired K := by
  obtain ⟨hstate, type, rfl⟩ := h
  have hheader : ({ b with type := type } : FrameBuilder).validateHeader K = b.validateHeader K := by
    unfold FrameBuilder.validateHeader
    rw [if_pos hstate, if_pos (show ({ b with type := type } : FrameBuilder).state = .invalid from hstate)]
    rfl
  unfold FrameBuilder.isBodyReadRequired
  rw [hheader]

/-- The managers of two runs: from the first whole header on the builders are the same. -/
def Level (sent : List UInt8) (s t : ConnectionManager) : Prop :=
  Behind sent Eq s t ∨ Behind sent Stale s t ∧ ∀ rd ∈ s.reads, rd = .header

theorem together_afterHandler {R : ConnectionManager → ConnectionManager → Prop} {o o' : Outcome Exception ConnectionManager Unit}
    (h : o.Alike R o') (e : ConnectionEvent) :
    Option.Rel (Together R) (ConnectionRun.afterHandler e o) (ConnectionRun.afterHandler e o') := by
  cases h with
  | ok a h => exact .some ⟨h, rfl⟩
  | throws ex h => exact .some ⟨h, rfl⟩
  | undefined => exact .none

theorem together_afterUser {α : Type} {R : ConnectionManager → ConnectionManager → Prop} {o o' : Outcome Exception ConnectionManager α}
    (h : o.Alike R o') : Option.Rel (Together R) (ConnectionRun.afterUser o) (ConnectionRun.afterUser o') := by
  cases h with
  | ok a h => exact .some ⟨h, rfl⟩
  | throws ex h => exact .some ⟨h, rfl⟩
  | undefined => exact .none

/-! ### Steps -/

theorem together_next {m m' : ConnectionManager} (h : Behind sent P m m') {e : ConnectionEvent}
    (he : ∀ i bytes, e ≠ .readDone i (some bytes)) :
    Option.Rel (Together (Behind sent P)) (ConnectionRun.next Γ m e) (ConnectionRun.next Γ m' e) := by
  cases e with
  | beginWriteFrame fr => exact together_afterHandler (alike_runBeginWriteFrame Γ fr m m' h) _
  | startOpenChannel => exact together_afterHandler (alike_runStartOpenChannel Γ m m' h) _
  | transmit i =>
    have hrel := h.transmit Γ.constants i
    simp only [ConnectionRun.next]
    generalize m.transmit Γ.constants i = s, m'.transmit Γ.constants i = t at hrel
    cases hrel with
    | none => exact .none
    | some h => exact .some ⟨h, rfl⟩
  | writeDone i ok =>
    obtain ⟨writer, builder, rfl, hwriter, hbuilder⟩ := h
    simp only [ConnectionRun.next]
    split
    · rename_i w hw
      have hne : m.writes ≠ [] := by
        intro hnil
        rw [hnil] at hw
        cases hw
      split
      · exact .none
      · refine together_afterHandler (alike_onWriteFrame Γ ok _ _ ?_) _
        exact ⟨writer, builder, rfl, Or.inl (hwriter.resolve_right hne), hbuilder⟩
    · exact .none
  | readDone i bytes =>
    cases bytes with
    | some bytes => exact absurd rfl (he i bytes)
    | none =>
      obtain ⟨writer, builder, rfl, hwriter, hbuilder⟩ := h
      simp only [ConnectionRun.next]
      cases hrd : m.reads[i]? with
      | none => exact .none
      | some rd =>
        refine together_afterHandler ?_ _
        cases rd with
        | header => exact alike_onSocketClose _ _ ⟨writer, builder, rfl, hwriter, hbuilder⟩
        | body n k => exact alike_onSocketClose _ _ ⟨writer, builder, rfl, hwriter, hbuilder⟩
  | destroyChannel i => exact together_afterUser (alike_releaseChannel Γ i m m' h)
  | beginRpc i method classId methodId =>
    exact together_afterUser (alike_zoomChannel i (Behind.setChannel i) _ m m' h)

/-- A header that was read: the builders are the same once it is valid. -/
theorem level_onFrameHeaderRead {s t : ConnectionManager} (h : Behind sent Stale s t) (hreads : ∀ rd ∈ s.reads, rd = .header) :
    (onFrameHeaderRead Γ true s).Alike (Level sent) (onFrameHeaderRead Γ true t) := by
  obtain ⟨writer, builder, rfl, hwriter, hbuilder⟩ := id h
  have hstale := isBodyReadRequired_stale hbuilder Γ.constants
  unfold onFrameHeaderRead
  rcases hreq : s.builder.isBodyReadRequired Γ.constants with e | ⟨required, b⟩
  · rw [hreq] at hstale
    simp only [if_true, Prog.bind_apply, Prog.get_apply, hreq, hstale, Prog.lift_error]
    exact .throws e (Or.inr ⟨h, hreads⟩)
  · rw [hreq] at hstale
    have hsame : Behind sent Eq { s with builder := b } { s with socket := sent ++ s.socket, writer := writer, builder := b } :=
      ⟨writer, b, rfl, hwriter, rfl⟩
    simp only [if_true, Prog.bind_apply, Prog.get_apply, hreq, hstale, Prog.lift_ok, Prog.modify_apply, Prog.ite_apply]
    split
    · exact (alike_beginBodyRead Γ _ _ hsame).imp fun _ _ => Or.inl
    · exact (alike_receiveFrame Γ _ _ hsame).imp fun _ _ => Or.inl

/-- A read that succeeds. -/
theorem level_readDone {m m' : ConnectionManager} (h : Level sent m m') (i : Nat) (bytes : List UInt8) :
    Option.Rel (Together (Level sent)) (ConnectionRun.next Γ m (.readDone i (some bytes)))
      (ConnectionRun.next Γ m' (.readDone i (some bytes))) := by
  have hreads : m'.reads = m.reads := by
    rcases h with ⟨writer, builder, rfl, -⟩ | ⟨⟨writer, builder, rfl, -⟩, -⟩ <;> rfl
  simp only [ConnectionRun.next, hreads]
  cases hrd : m.reads[i]? with
  | none => exact .none
  | some rd =>
    dsimp only
    split
    · exact .none
    · refine together_afterHandler ?_ _
      rcases h with ⟨writer, builder, rfl, hwriter, rfl⟩ | ⟨⟨writer, builder, rfl, hwriter, hbuilder⟩, hheader⟩
      · have hsame : Behind sent Eq { m with reads := m.reads.eraseIdx i, builder := rd.fill m.builder bytes }
            { m with reads := m.reads.eraseIdx i, builder := rd.fill m.builder bytes, socket := sent ++ m.socket,
                     writer := writer } := ⟨writer, _, rfl, hwriter, rfl⟩
        cases rd with
        | header => exact (alike_onFrameHeaderRead Γ _ _ hsame).imp fun _ _ => Or.inl
        | body n k => exact (alike_receiveFrame Γ _ _ hsame).imp fun _ _ => Or.inl
      · obtain rfl := hheader rd (List.mem_of_getElem? hrd)
        obtain ⟨hstate, type, rfl⟩ := hbuilder
        refine level_onFrameHeaderRead ⟨writer, _, rfl, hwriter, hstate, type, rfl⟩ fun rd' hrd' => ?_
        exact hheader rd' (List.eraseIdx_subset hrd')

/-- The reads stay what they are, or are fewer. -/
theorem reads_subset_of_next {m : ConnectionManager} {e : ConnectionEvent} {r : ConnectionRun}
    (he : ∀ i bytes, e ≠ .readDone i (some bytes)) (h : ConnectionRun.next Γ m e = some r) : r.manager.reads ⊆ m.reads := by
  by_cases hread : ∃ i, e = .readDone i none
  · obtain ⟨i, rfl⟩ := hread
    cases ConnectionRun.effect_of_next h with
    | wrote _ h => exact h.reads ▸ List.Subset.refl _
    | readFailed h => exact h.reads ▸ List.eraseIdx_subset
  · have hunread := ReadLoopAux.unread_of_effect (fun i bytes => ?_) (ConnectionRun.effect_of_next h)
    · exact hunread.reads ▸ List.Subset.refl _
    · rintro rfl
      cases bytes with
      | none => exact hread ⟨i, rfl⟩
      | some bytes => exact he i bytes rfl

theorem level_next {m m' : ConnectionManager} (h : Level sent m m') (e : ConnectionEvent) :
    Option.Rel (Together (Level sent)) (ConnectionRun.next Γ m e) (ConnectionRun.next Γ m' e) := by
  by_cases he : ∀ i bytes, e ≠ .readDone i (some bytes)
  · rcases h with h | ⟨h, hreads⟩
    · have hrel := together_next (Γ := Γ) h he
      generalize ConnectionRun.next Γ m e = r, ConnectionRun.next Γ m' e = r' at hrel
      cases hrel with
      | none => exact .none
      | some h => exact .some ⟨Or.inl h.1, h.2⟩
    · have hrel := together_next (Γ := Γ) h he
      cases hr : ConnectionRun.next Γ m e with
      | none =>
        rw [hr] at hrel
        generalize ConnectionRun.next Γ m' e = r' at hrel
        cases hrel
        exact .none
      | some r =>
        have hsub := reads_subset_of_next he hr
        rw [hr] at hrel
        generalize ConnectionRun.next Γ m' e = r' at hrel
        cases hrel with
        | some h => exact .some ⟨Or.inr ⟨h.1, fun rd hrd => hreads rd (hsub hrd)⟩, h.2⟩
  · push Not at he
    obtain ⟨i, bytes, rfl⟩ := he
    exact level_readDone h i bytes

theorem level_step {r r' : ConnectionRun} (h : Together (Level sent) r r') (e : ConnectionEvent) :
    Option.Rel (Together (Level sent)) (r.step Γ e) (r'.step Γ e) := by
  obtain ⟨hlevel, hescaped⟩ := h
  unfold ConnectionRun.step
  rw [hescaped]
  split
  · exact .none
  · exact level_next hlevel e

/-- A session and the connection manager from the start of its read loop on. -/
theorem bisimilar {m : ConnectionManager} (h : Level sent .started m) :
    Machine.Bisimilar (connectionMachine Γ) (sessionMachine Γ m) (Together (Level sent)) :=
  ⟨⟨h, rfl⟩, fun _ _ e hr => level_step hr e⟩

/-- Where the handshake leaves the manager. -/
theorem level_opened {Γ : ConnectionEnv} {username password vhost : List UInt8} (x : BrokerScript Γ)
    (y : ClientFrames Γ username password vhost x) (rest : List UInt8) (breaksAfter : Option Nat) :
    Level y.bytes .started (opened x y rest breaksAfter).thread := by
  refine Or.inr ⟨⟨⟨y.openMethod.header Γ.constants⟩, { FrameBuilder.create with type := x.openOkFrame.type }, ?_, Or.inr rfl,
    rfl, x.openOkFrame.type, rfl⟩, fun rd hrd => List.mem_singleton.mp hrd⟩
  rw [show y.bytes ++ ConnectionManager.started.socket = y.bytes from List.append_nil _]
  rfl

/-! ### What the two runs share -/

theorem Level.behind {s t : ConnectionManager} (h : Level sent s t) : Behind sent UpToType s t := by
  rcases h with ⟨writer, builder, rfl, hwriter, rfl⟩ | ⟨⟨writer, builder, rfl, hwriter, -, htype⟩, -⟩
  · exact ⟨writer, s.builder, rfl, hwriter, s.builder.type, rfl⟩
  · exact ⟨writer, builder, rfl, hwriter, htype⟩

theorem dispatchReturns_iff {r r' : ConnectionRun} (h : Together (Level sent) r r') (e : ConnectionEvent) :
    DispatchReturns Γ r e ↔ DispatchReturns Γ r' e := by
  refine Machine.forall_iff_of_rel (level_step h e) fun u u' hu => ?_
  obtain ⟨⟨writer, builder, hm, -⟩, -⟩ := And.imp_left Level.behind h
  obtain ⟨⟨writer', builder', hm', -⟩, hescaped⟩ := And.imp_left Level.behind hu
  rw [hm, hm', hescaped]
  rfl

theorem submitsAlone_iff {r r' : ConnectionRun} (h : Together (Level sent) r r') (e : ConnectionEvent) :
    SubmitsAlone Γ r e ↔ SubmitsAlone Γ r' e := by
  refine Machine.forall_iff_of_rel (level_step h e) fun u u' hu => ?_
  obtain ⟨⟨writer, builder, hm, -⟩, -⟩ := And.imp_left Level.behind h
  obtain ⟨⟨writer', builder', hm', -⟩, -⟩ := And.imp_left Level.behind hu
  rw [hm, hm']
  rfl

/-- What is sent in order by one manager is sent in order by the other, behind the handshake. -/
theorem sendsAfter_iff {s t : ConnectionManager} (h : Level sent s t) (K : Constants) :
    s.SendsInOrder K ↔ t.SendsAfter K sent := by
  obtain ⟨writer, builder, rfl, hwriter, -⟩ := h.behind
  have hheader : ∀ w ∈ s.writes, writer = s.writer := by
    intro w hw
    refine hwriter.resolve_right fun hnil => ?_
    rw [hnil] at hw
    cases hw
  constructor
  · intro hs
    exact ⟨s.socket, rfl, hs.one, fun w hw => ⟨(hs.current w hw).1, by rw [hheader w hw]; exact (hs.current w hw).2⟩, hs.sent, hs.all⟩
  · rintro ⟨l, hl, ht⟩
    obtain rfl : s.socket = l := List.append_cancel_left hl
    exact ⟨ht.one, fun w hw => ⟨(ht.current w hw).1, by rw [← hheader w hw]; exact (ht.current w hw).2⟩, ht.sent, ht.all⟩

/-! ### A session -/

/-- A channel is opened, and the answer is read. -/
def openedRun : List ConnectionEvent :=
  [.startOpenChannel, .readDone 0 (some [1, 0, 1, 0, 0, 0, 8, 0]), .readDone 0 (some [20, 0, 11, 0, 0, 0, 0, 206])]

/-- A channel is opened, and the frame is sent. -/
def openingRun : List ConnectionEvent :=
  [.startOpenChannel] ++ List.replicate 13 (.transmit 0) ++ [.writeDone 0 true]

section sample

variable {username password vhost : List UInt8} (x : BrokerScript .sample) (y : ClientFrames .sample username password vhost x)
  (rest : List UInt8) (breaksAfter : Option Nat)

theorem exists_openedRun : ∃ r,
    (sessionMachine ConnectionEnv.sample.toEnv (opened x y rest breaksAfter).thread).run openedRun = some r ∧
      r.manager.dispatched = [EnvSample.openOkFrame] ∧
      (sessionMachine ConnectionEnv.sample.toEnv (opened x y rest breaksAfter).thread).Guarded
        (DispatchReturns ConnectionEnv.sample.toEnv) openedRun := by
  have hbisim := bisimilar (Γ := ConnectionEnv.sample.toEnv) (level_opened x y rest breaksAfter)
  have hstate : ((connectionMachine ConnectionEnv.sample.toEnv).run openedRun).map
      (fun r => (r.manager.dispatched, r.escaped.isNone)) = some ([EnvSample.openOkFrame], true) := by decide +kernel
  obtain ⟨r₀, hr₀, hstate⟩ := Option.map_eq_some_iff.mp hstate
  obtain ⟨hdispatched, hnone⟩ := Prod.mk.injEq _ _ _ _ |>.mp hstate
  obtain ⟨r, hr, hlevel, -⟩ := hbisim.exists_run hr₀
  obtain ⟨writer, builder, hm, -⟩ := hlevel.behind
  refine ⟨r, hr, by rw [hm]; exact hdispatched, ?_⟩
  refine (hbisim.guarded_iff (fun _ _ e hst => dispatchReturns_iff hst e) openedRun).mp ?_
  exact ReadLoopAux.guarded_of_escaped_eq_none hr₀ (Option.isNone_iff_eq_none.mp hnone)

/-- The frame that opens the channel. -/
def openFrame : Frame := ⟨.method, 1, [0, 20, 0, 10, 0]⟩

theorem exists_openingRun : ∃ r,
    (sessionMachine ConnectionEnv.sample.toEnv (opened x y rest breaksAfter).thread).run openingRun = some r ∧
      (r.manager.state = .openState ∧ r.manager.writes = [] ∧ r.manager.submitted = [openFrame]) ∧
      (sessionMachine ConnectionEnv.sample.toEnv (opened x y rest breaksAfter).thread).Guarded
        (SubmitsAlone ConnectionEnv.sample.toEnv) openingRun := by
  have hbisim := bisimilar (Γ := ConnectionEnv.sample.toEnv) (level_opened x y rest breaksAfter)
  have hstate : ((connectionMachine ConnectionEnv.sample.toEnv).run openingRun).map
      (fun r => (r.manager.state, r.manager.writes, r.manager.submitted)) = some (.openState, [], [openFrame]) := by
    decide +kernel
  obtain ⟨r₀, hr₀, hstate⟩ := Option.map_eq_some_iff.mp hstate
  simp only [Prod.mk.injEq] at hstate
  obtain ⟨r, hr, hlevel, -⟩ := hbisim.exists_run hr₀
  obtain ⟨writer, builder, hm, -⟩ := hlevel.behind
  refine ⟨r, hr, by rw [hm]; exact hstate, ?_⟩
  refine (hbisim.guarded_iff (fun _ _ e hst => submitsAlone_iff hst e) openingRun).mp ?_
  refine Machine.guarded_snoc.mpr ⟨?_, fun r _ => DeliveryAux.submitsAlone_writeDone r 0⟩
  refine Machine.Guarded.append ((@Machine.guarded_snoc _ _ _ _ [] _).mpr ⟨Machine.guarded_nil _, ?_⟩) fun e he r => ?_
  · rintro _ ⟨⟩ _ ⟨⟩ -
    decide
  · rw [List.eq_of_mem_replicate he]
    exact DeliveryAux.submitsAlone_transmit r 0

end sample

end SessionAux

open SessionAux HandshakeAux ConnectionManager

section results

variable (Γ : ConnectionEnv) (B : Sasl.StringAlgo) {resolved : Option (List Bool)}
  {username password vhost incoming : List UInt8} {breaksAfter : Option Nat} {s' : ConnectionImpl}
  (h : connect Γ B resolved username password vhost (.create incoming breaksAfter) = .ok () s')

include h

/-- Behind a `connect` that returned the same events can happen as behind the start of the read loop of a new manager, with
the same effects: the managers differ in what the handshake put on the socket, in the header that is left in the writer
until the first write starts, and in the type that is left in the builder. -/
theorem session_runs (es : List ConnectionEvent) :
    Option.Rel (Together (Behind s'.thread.socket UpToType)) ((connectionMachine Γ.toEnv).run es)
      ((sessionMachine Γ.toEnv s'.thread).run es) := by
  obtain ⟨x, y, rest, -, -, -, -, -, rfl⟩ := of_connect h
  have hrel := (bisimilar (Γ := Γ.toEnv) (level_opened x y rest breaksAfter)).run es
  generalize (connectionMachine Γ.toEnv).run es = r, (sessionMachine Γ.toEnv (opened x y rest breaksAfter).thread).run es = r' at hrel
  cases hrel with
  | none => exact .none
  | some hr => exact .some ⟨hr.1.behind, hr.2⟩

omit h in
/-- A channel can be opened behind the handshake. -/
theorem session_runs_sample : ∃ s', connect .sample classicAlgo (some [false, true]) [117] [112] [47]
      (.create (sampleScript.bytes ++ [9]) none) = .ok () s' ∧
    Option.Rel (Together (Behind s'.thread.socket UpToType)) ((connectionMachine ConnectionEnv.sample.toEnv).run [.startOpenChannel])
      ((sessionMachine ConnectionEnv.sample.toEnv s'.thread).run [.startOpenChannel]) := by
  obtain ⟨y, h⟩ := exists_connect_sample
  exact ⟨_, h, session_runs .sample classicAlgo h _⟩

/-- From the first byte on, what the broker has sent is read as one sequence of frames: the `start`, the `tune` and the
`open_ok` of the handshake, and then those that were dispatched, in any session in which `dispatch_frame` returns. -/
theorem session_frames {es : List ConnectionEvent} {r : ConnectionRun} (hr : (sessionMachine Γ.toEnv s'.thread).run es = some r)
    (hreturns : (sessionMachine Γ.toEnv s'.thread).Guarded (DispatchReturns Γ.toEnv) es) :
    ∃ x : BrokerScript Γ, incoming = x.bytes ++ s'.incoming ∧
      ∀ k builder, (x.bytes ++ es.flatMap ConnectionEvent.received).length ≤ k →
        (readFrames Γ.constants k builder (x.bytes ++ es.flatMap ConnectionEvent.received)).1 =
          [x.startFrame, x.tuneFrame, x.openOkFrame] ++ r.manager.dispatched := by
  obtain ⟨x, y, rest, -, hincoming, -, -, -, rfl⟩ := of_connect h
  have hbisim := bisimilar (Γ := Γ.toEnv) (level_opened x y rest breaksAfter)
  obtain ⟨r₀, hr₀, hlevel, -⟩ := hbisim.exists_run' hr
  obtain ⟨writer, builder, hm, -⟩ := hlevel.behind
  have hdispatched : r.manager.dispatched = r₀.manager.dispatched := by
    rw [hm]
    rfl
  obtain ⟨hshort, left, ex, hreceived, hfail⟩ :=
    DeliveryAux.received_of_run hr₀ ((hbisim.guarded_iff (fun _ _ e hst => dispatchReturns_iff hst e) es).mpr hreturns)
  refine ⟨x, hincoming, fun k builder hk => ?_⟩
  -- The bytes are those of the frames, and of a rest that opens with none.
  have hbytes : x.bytes ++ es.flatMap ConnectionEvent.received =
      ([x.startFrame, x.tuneFrame, x.openOkFrame] ++ r₀.manager.dispatched).flatMap (·.sequence Γ.constants) ++ left := by
    rw [hreceived]
    simp [BrokerScript.bytes]
  have hlength : ∀ f ∈ [x.startFrame, x.tuneFrame, x.openOkFrame] ++ r₀.manager.dispatched, f.payload.length < 2 ^ 32 := by
    rw [List.forall_mem_append]
    refine ⟨?_, hshort⟩
    simpa using ⟨x.start_says.length, x.tune_says.length, x.openOk_says.length⟩
  have hcount := length_le_flatMap_sequence Γ.constants ([x.startFrame, x.tuneFrame, x.openOkFrame] ++ r₀.manager.dispatched)
  rw [hbytes, List.length_append] at hk
  rw [hbytes, hdispatched, readFrames_append Γ.constants hlength hfail (by omega)]

omit h in
/-- Four frames of the broker: the last one answers the opening of a channel. -/
theorem session_frames_sample : ∃ s' r, connect .sample classicAlgo (some [false, true]) [117] [112] [47]
      (.create (sampleScript.bytes ++ [9]) none) = .ok () s' ∧
    (sessionMachine ConnectionEnv.sample.toEnv s'.thread).run openedRun = some r ∧ r.manager.dispatched = [EnvSample.openOkFrame] ∧
    ∃ x : BrokerScript .sample, sampleScript.bytes ++ [9] = x.bytes ++ s'.incoming ∧
      ∀ k builder, (x.bytes ++ openedRun.flatMap ConnectionEvent.received).length ≤ k →
        (readFrames .sample k builder (x.bytes ++ openedRun.flatMap ConnectionEvent.received)).1 =
          [x.startFrame, x.tuneFrame, x.openOkFrame] ++ r.manager.dispatched := by
  obtain ⟨y, h⟩ := exists_connect_sample
  obtain ⟨r, hr, hdispatched, hreturns⟩ := exists_openedRun sampleScript y [9] none
  exact ⟨_, r, h, hr, hdispatched, session_frames .sample classicAlgo h hr hreturns⟩

/-- In a session the bytes on the socket are those of the handshake and then those of the frames submitted, in their order,
throughout exactly when each of these is submitted on its own, while no write is in flight. -/
theorem session_sends_iff {es : List ConnectionEvent} {r : ConnectionRun} (hr : (sessionMachine Γ.toEnv s'.thread).run es = some r) :
    (sessionMachine Γ.toEnv s'.thread).Always (fun r => r.manager.SendsAfter Γ.constants s'.thread.socket) es ↔
      (sessionMachine Γ.toEnv s'.thread).Guarded (SubmitsAlone Γ.toEnv) es := by
  obtain ⟨x, y, rest, -, -, -, -, -, rfl⟩ := of_connect h
  have hbisim := bisimilar (Γ := Γ.toEnv) (level_opened x y rest breaksAfter)
  obtain ⟨r₀, hr₀, -⟩ := hbisim.exists_run' hr
  have halways := hbisim.always_iff (fun _ _ hst => sendsAfter_iff hst.1 Γ.constants) es
  have hguarded := hbisim.guarded_iff (fun _ _ e hst => submitsAlone_iff (Γ := Γ.toEnv) hst e) es
  exact halways.symm.trans ((DeliveryAux.sends_iff hr₀).trans hguarded)

omit h in
/-- The frame that opens a channel is submitted on its own. -/
theorem session_sends_iff_sample : ∃ s', connect .sample classicAlgo (some [false, true]) [117] [112] [47]
      (.create (sampleScript.bytes ++ [9]) none) = .ok () s' ∧
    (sessionMachine ConnectionEnv.sample.toEnv s'.thread).Always
      (fun r => r.manager.SendsAfter Constants.sample s'.thread.socket) openingRun := by
  obtain ⟨y, h⟩ := exists_connect_sample
  obtain ⟨r, hr, -, halone⟩ := exists_openingRun sampleScript y [9] none
  exact ⟨_, h, (session_sends_iff .sample classicAlgo h hr).mpr halone⟩

/-- Once no write is in flight on an open connection on which each frame was submitted on its own, the broker's reader finds
behind the protocol header the `start_ok`, the `tune_ok` and the `open` of the handshake, then the frames submitted, in their
order, and nothing else. -/
theorem session_heard {es : List ConnectionEvent} {r : ConnectionRun}
    (hr : (sessionMachine Γ.toEnv s'.thread).run es = some r)
    (halone : (sessionMachine Γ.toEnv s'.thread).Guarded (SubmitsAlone Γ.toEnv) es) (hopen : r.manager.state = .openState)
    (hwrites : r.manager.writes = []) (hsizes : ∀ f ∈ r.manager.submitted, f.payload.length < 2 ^ 32) :
    ∃ (x : BrokerScript Γ) (frames : List Frame), incoming = x.bytes ++ s'.incoming ∧
      r.manager.socket.take 8 = protocolHeader ∧
      (∀ k builder, frames.length + r.manager.submitted.length ≤ k →
        readFrames Γ.constants k builder (r.manager.socket.drop 8) = (frames ++ r.manager.submitted, [])) ∧
      List.Forall₂ (ReadAs Γ) frames
        [startOkOf Γ username password, tuneOkOf Γ x.channelMax x.frameMax x.heartbeat, openOf Γ vhost] := by
  obtain ⟨x, y, rest, -, hincoming, hanswers, hvhost, -, rfl⟩ := of_connect h
  have hbisim := bisimilar (Γ := Γ.toEnv) (level_opened x y rest breaksAfter)
  obtain ⟨r₀, hr₀, hlevel, -⟩ := hbisim.exists_run' hr
  have hsends := DeliveryAux.sends_of_run hr₀ ((hbisim.guarded_iff (fun _ _ e hst => submitsAlone_iff hst e) es).mpr halone)
  obtain ⟨writer, builder, hm, -⟩ := hlevel.behind
  have hbytes := hsends.inOrder.all (by rw [hm] at hopen; exact hopen)
  rw [show r₀.manager.writes = [] by rw [hm] at hwrites; exact hwrites, List.flatMap_nil, List.append_nil] at hbytes
  have hread := forall₂_readAs y hanswers hvhost
  have hsocket : r.manager.socket = protocolHeader ++ (y.frames ++ r.manager.submitted).flatMap (·.sequence Γ.constants) := by
    rw [hm, List.flatMap_append, ← List.append_assoc]
    exact congrArg (y.bytes ++ ·) hbytes
  refine ⟨x, y.frames, hincoming, hsocket ▸ List.take_left' rfl, fun k builder hk => ?_, hread⟩
  rw [hsocket, show List.drop 8 (protocolHeader ++ _) = _ from List.drop_left' rfl]
  refine FramingAux.readFrames_flatMap Γ.constants _ ?_ k (by rwa [List.length_append]) builder
  exact List.forall_mem_append.mpr ⟨length_of_readAs hread, hsizes⟩

omit h in
/-- The broker reads four frames: the last one opens a channel. -/
theorem session_heard_sample : ∃ s' r frames, connect .sample classicAlgo (some [false, true]) [117] [112] [47]
      (.create (sampleScript.bytes ++ [9]) none) = .ok () s' ∧
    (sessionMachine ConnectionEnv.sample.toEnv s'.thread).run openingRun = some r ∧ r.manager.submitted.length = 1 ∧
    frames.length = 3 ∧ readFrames .sample 4 .create (r.manager.socket.drop 8) = (frames ++ r.manager.submitted, []) := by
  obtain ⟨y, h⟩ := exists_connect_sample
  obtain ⟨r, hr, ⟨hopen, hwrites, hsubmitted⟩, halone⟩ := exists_openingRun sampleScript y [9] none
  have hlength : r.manager.submitted.length = 1 := by rw [hsubmitted]; rfl
  obtain ⟨x, frames, -, -, hread, hall⟩ := session_heard .sample classicAlgo h hr halone hopen hwrites
    (by rw [hsubmitted]; decide)
  have hcount : frames.length = 3 := hall.length_eq
  exact ⟨_, r, frames, h, hr, hlength, hcount, hread 4 .create (by omega)⟩

end results

end Amqpp
