import Amqpp.Theorems.Service

/-!
# What ends the thread

How the handler of an event ends is told from the state it starts in. So an exception leaves `io_service::run` exactly at the
first step that is fatal where it is taken: a frame that is malformed or that nobody takes, a second failure of the socket, or
a frame of the client's own that cannot be made. Two accesses are undefined, one of `m_channels` past its end and one of a
byte string without bytes, and no others are.
-/

namespace Amqpp

/-- The frame that the builder gives once the buffers of a read are filled. A header that announces a body gives none yet. -/
def AsyncRead.received (K : Constants) (builder : FrameBuilder) : AsyncRead → Except Exception (Option Frame)
  | header => do
    let (required, builder) ← builder.isBodyReadRequired K
    if required then return none
    else return some (← builder.createFrame K)
  | body _ _ => return some (← builder.createFrame K)

/-- The bytes that a read got make no frame, or one that is not taken. -/
def ConnectionManager.Refuses (Γ : Env) (s : ConnectionManager) (rd : AsyncRead) (builder : FrameBuilder) : Prop :=
  (∃ e, rd.received Γ.constants builder = .error e) ∨
    ∃ fr, rd.received Γ.constants builder = .ok (some fr) ∧ ¬s.Takes Γ fr

/-- The bytes that a read got make a frame that can be read, for a channel number past the end of `m_channels`. -/
def ConnectionManager.Overreads (Γ : Env) (s : ConnectionManager) (rd : AsyncRead) (builder : FrameBuilder) : Prop :=
  ∃ fr, rd.received Γ.constants builder = .ok (some fr) ∧ s.channels.length ≤ fr.channel.toNat ∧ Γ.Readable fr

/-- The handler of the event throws. -/
inductive ConnectionManager.Fatal (Γ : Env) (s : ConnectionManager) : ConnectionEvent → Prop where
  /-- The frame of a new channel cannot be made, and what is thrown is not caught. -/
  | unopened {ex : Exception} (hlength : s.channels.length ≤ 65535)
      (hframe : createFromMethod Γ.memory (UInt16.ofNat s.channels.length) (.create Γ.channel Γ.channelOpen) = .error ex)
      (hex : ex.isRuntimeError = false) : Fatal Γ s .startOpenChannel
  | refused {i : Nat} {bytes : List UInt8} {rd : AsyncRead} (hrd : s.reads[i]? = some rd)
      (h : s.Refuses Γ rd (rd.fill s.builder bytes)) : Fatal Γ s (.readDone i (some bytes))
  /-- The socket fails, and a channel that lives was closed before. -/
  | closedAgain {e : ConnectionEvent} {i : Nat} {h : FrameHandler} (he : e.isError = true) (hi : 1 ≤ i) (hl : s.live i = some h)
      (hclosed : h.IsClosed) : Fatal Γ s e

/-- The handler of the event reads `m_channels` past its end. -/
inductive ConnectionManager.OutOfBounds (Γ : Env) (s : ConnectionManager) : ConnectionEvent → Prop where
  | read {i : Nat} {bytes : List UInt8} {rd : AsyncRead} (hrd : s.reads[i]? = some rd)
      (h : s.Overreads Γ rd (rd.fill s.builder bytes)) : OutOfBounds Γ s (.readDone i (some bytes))

/-- `method::read` is called on the frame: by `handle_dead_channel_frame`, or by what the channel's `m_continuation` is bound to,
`closed_handler` aside. -/
def ConnectionManager.callsRead (s : ConnectionManager) (fr : Frame) : Bool :=
  decide (fr.type = .method) && match s.live fr.channel.toNat with
    | none => true
    | some .channel0 => false
    | some (.channel c) => decide (c.continuation ≠ .closedHandler)

/-- The bytes that a read got make a frame that `method::read` is called on, and comes to a byte string without bytes in. -/
def ConnectionManager.misreads (Γ : Env) (s : ConnectionManager) : ConnectionEvent → Bool
  | .readDone i (some bytes) =>
    s.reads[i]?.any fun rd =>
      match rd.received Γ.constants (rd.fill s.builder bytes) with
      | .ok (some fr) => s.callsRead fr && Γ.spec.misreads fr
      | _ => false
  | _ => false

/-- How the handler ends that the io_service thread runs for an event, when the event can happen and has one. What `method::read`
gives is what its reader gives. -/
def ConnectionEvent.handler (Γ : Env) (s : ConnectionManager) :
    ConnectionEvent → Option (Outcome Exception ConnectionManager Unit)
  | .beginWriteFrame fr => some (ConnectionManager.runBeginWriteFrame Γ fr s)
  | .startOpenChannel => some (ConnectionManager.runStartOpenChannel Γ s)
  | .writeDone i ok =>
    s.writes[i]?.bind fun w =>
      if ok = true ∧ w.sent ≠ w.size then none
      else some (ConnectionManager.onWriteFrame Γ ok { s with writes := s.writes.eraseIdx i })
  | .readDone i (some bytes) =>
    s.reads[i]?.bind fun rd =>
      if bytes.length ≠ rd.size then none
      else some (rd.onDone Γ true { s with reads := s.reads.eraseIdx i, builder := rd.fill s.builder bytes })
  | .readDone i none => s.reads[i]?.map fun rd => rd.onDone Γ false { s with reads := s.reads.eraseIdx i }
  | .transmit _ | .destroyChannel _ | .beginRpc _ _ _ _ => none

namespace EscapeAux

open ConnectionManager SurvivalAux

variable {Γ : Env}

/-! ### How a handler ends -/

/-- The ending is an exception of the library exactly when `p`, and undefined exactly when `q`. -/
def Decides (p q : Prop) : Outcome Exception ConnectionManager Unit → Prop
  | .ok _ _ => ¬p ∧ ¬q
  | .throws e _ => p ∧ ¬q ∧ e ≠ .stuck
  | .undefined => q

theorem Decides.congr {p p' q q' : Prop} {o : Outcome Exception ConnectionManager Unit} (h : Decides p q o) (hp : p ↔ p')
    (hq : q ↔ q') : Decides p' q' o := by
  rwa [← propext hp, ← propext hq]

/-- A handler that throws exactly when `p` ends the run exactly when `p`. -/
theorem Decides.escaped_iff {p q : Prop} {e : ConnectionEvent} {o : Outcome Exception ConnectionManager Unit} {r : ConnectionRun}
    (ho : Decides p q o) (h : ConnectionRun.afterHandler e o = some r) : r.escaped = none ↔ ¬p := by
  cases o with
  | ok a t =>
    cases h
    exact iff_of_true rfl ho.1
  | throws ex t =>
    cases h
    exact iff_of_false (Option.some_ne_none _) (not_not_intro ho.1)
  | undefined => cases h

/-- What a user calls ends nothing. -/
theorem escaped_of_user {α : Type} {o : Outcome Exception ConnectionManager α} {r : ConnectionRun}
    (h : ConnectionRun.afterUser o = some r) : r.escaped = none := by
  cases o with
  | ok a t =>
    cases h
    rfl
  | throws ex t =>
    cases h
    rfl
  | undefined => cases h

/-! ### Writing and opening -/

theorem decides_runBeginWriteFrame (fr : Frame) (s : ConnectionManager) :
    Decides False False (runBeginWriteFrame Γ fr s) := by
  obtain ⟨t, ht, -⟩ := beginWriteFrame_ok Γ ⟨s.allocated, fr⟩ { s with allocated := s.allocated + 1 }
  have hrun : runBeginWriteFrame Γ fr s = .ok () t := ht
  rw [hrun]
  exact ⟨not_false, not_false⟩

/-- A write that succeeded. -/
theorem decides_onWriteFrame (s : ConnectionManager) : Decides False False (onWriteFrame Γ true s) := by
  unfold onWriteFrame
  rcases hqueue : s.writeQueue with _ | ⟨fr, queue⟩
  · simp [hqueue, Decides]
  · simp [hqueue, writeFront, Decides]

/-- The channel that a table just got is released: its destructor throws nothing. -/
theorem releaseChannel_last_ok {s : ConnectionManager} {c : ChannelImpl} (hs : List (Option FrameHandler))
    (h : s.channels = hs ++ [some (.channel c)]) : ∃ t, releaseChannel Γ hs.length s = .ok () t := by
  have hat : s.channelAt hs.length = some c := by
    rw [channelAt_eq_some, live_eq_some, h, List.getElem?_concat_length]
  obtain ⟨fr, hfr⟩ := Γ.exists_goodbye c.channelId
  obtain ⟨close, hclose, hframe⟩ := Except.bind_eq_ok.mp hfr
  unfold releaseChannel ChannelImpl.destroy ChannelImpl.close_ ChannelImpl.beginWriteMethod ChannelImpl.setContinuation
  simp [Prog.zoom, hat, hclose, hframe]

theorem decides_runStartOpenChannel (s : ConnectionManager) :
    Decides (s.Fatal Γ .startOpenChannel) False (runStartOpenChannel Γ s) := by
  have hfatal : s.Fatal Γ .startOpenChannel → s.channels.length ≤ 65535 ∧ ∃ ex, ex.isRuntimeError = false ∧
      createFromMethod Γ.memory (UInt16.ofNat s.channels.length) (.create Γ.channel Γ.channelOpen) = .error ex := by
    intro h
    cases h with
    | unopened hlength hframe hex => exact ⟨hlength, _, hex, hframe⟩
    | closedAgain he => cases he
  by_cases hfull : 65535 < s.channels.length
  · rw [runStartOpenChannel_full Γ hfull]
    exact ⟨fun h => absurd (hfatal h).1 (Nat.not_le.mpr hfull), not_false⟩
  · have hle := Nat.le_of_not_lt hfull
    rcases hframe : createFromMethod Γ.memory (UInt16.ofNat s.channels.length) (.create Γ.channel Γ.channelOpen) with ex | fr
    · rw [runStartOpenChannel_of_error hle hframe]
      cases hex : ex.isRuntimeError with
      | false =>
        have hown := Γ.createFromMethod_ne_stuck Γ.channel_mem (Γ.channelMethods_mem List.mem_cons_self)
          (UInt16.ofNat s.channels.length)
        exact ⟨.unopened hle hframe hex, not_false, fun hstuck => hown (hstuck ▸ hframe)⟩
      | true =>
        obtain ⟨t, ht⟩ := releaseChannel_last_ok (Γ := Γ) (s := { s.pushChannel with
          channelPromises := s.channelPromises ++ [.exception ex.copyRuntimeError] }) s.channels rfl
        rw [if_pos rfl, ht]
        refine ⟨fun h => ?_, not_false⟩
        obtain ⟨-, ex', hex', hframe'⟩ := hfatal h
        cases hframe.symm.trans hframe'
        rw [hex] at hex'
        cases hex'
    · obtain ⟨t, ht, -⟩ := runStartOpenChannel_of_ok hle hframe
      rw [ht]
      refine ⟨fun h => ?_, not_false⟩
      obtain ⟨-, ex, -, hframe'⟩ := hfatal h
      cases hframe.symm.trans hframe'

/-! ### Reading -/

/-- `dispatch_frame` goes wrong on the frames that can be read for channel numbers past the end, and on no others. -/
theorem decides_dispatchFrame {s : ConnectionManager} (hs : Handled s) (fr : Frame) :
    Decides (¬s.Takes Γ fr) (s.channels.length ≤ fr.channel.toNat ∧ Γ.Readable fr) (dispatchFrame Γ fr s) := by
  have hwrong : s.channels.length ≤ fr.channel.toNat ∧ Γ.Readable fr → dispatchFrame Γ fr s = .undefined :=
    fun h => DispatchAux.dispatchFrame_undefined Γ h.1 h.2
  rcases dispatchFrame_survives (Γ := Γ) hs fr with hundefined | ⟨⟨t, ht⟩, htakes⟩ | ⟨⟨e, t, hown, ht⟩, htakes⟩
  · rw [hundefined]
    by_contra hdefined
    by_cases hlt : fr.channel.toNat < s.channels.length
    · rw [DispatchAux.dispatchFrame_of_lt Γ hlt] at hundefined
      rcases hl : s.live fr.channel.toNat with _ | h
      · rw [DispatchAux.dispatchToHandler_expired Γ hlt hl] at hundefined
        have hends := DispatchAux.handleDeadChannelFrame_ends Γ fr s
        rw [hundefined] at hends
        exact hends
      · have hends := DispatchAux.dispatchToHandler_live Γ hl
        rw [hundefined] at hends
        exact hends
    · have hge := Nat.le_of_not_lt hlt
      obtain ⟨htype, hnone⟩ := Classical.not_imp.mp fun hread => hdefined ⟨hge, hread⟩
      rcases he : Γ.spec.readFrame fr with e | m
      · rw [DispatchAux.dispatchFrame_throws Γ hge htype he, DispatchAux.handleDeadChannelFrame_throws Γ htype he] at hundefined
        cases hundefined
      · exact hnone ⟨m, he⟩
  · rw [ht]
    refine ⟨not_not_intro htakes, fun h => ?_⟩
    cases ht.symm.trans (hwrong h)
  · rw [ht]
    refine ⟨htakes, fun h => ?_, hown⟩
    cases ht.symm.trans (hwrong h)

theorem received_body {K : Constants} {b : FrameBuilder} {n m : Nat} {e : Exception} (h : b.createFrame K = .error e) :
    (AsyncRead.body n m).received K b = .error e := by
  unfold AsyncRead.received
  rw [h]
  rfl

theorem received_body_ok {K : Constants} {b : FrameBuilder} {n m : Nat} {fr : Frame} (h : b.createFrame K = .ok fr) :
    (AsyncRead.body n m).received K b = .ok (some fr) := by
  unfold AsyncRead.received
  rw [h]
  rfl

section received

variable {s : ConnectionManager} {rd : AsyncRead} {b : FrameBuilder}

theorem refuses_error {e : Exception} (h : rd.received Γ.constants b = .error e) : s.Refuses Γ rd b ∧ ¬s.Overreads Γ rd b := by
  refine ⟨Or.inl ⟨e, h⟩, ?_⟩
  rintro ⟨fr, hfr, -⟩
  cases h.symm.trans hfr

theorem refuses_none (h : rd.received Γ.constants b = .ok none) : ¬s.Refuses Γ rd b ∧ ¬s.Overreads Γ rd b := by
  constructor
  · rintro (⟨e, he⟩ | ⟨fr, hfr, -⟩)
    · cases h.symm.trans he
    · cases h.symm.trans hfr
  · rintro ⟨fr, hfr, -⟩
    cases h.symm.trans hfr

variable {fr : Frame} (h : rd.received Γ.constants b = .ok (some fr))

include h

theorem refuses_iff : s.Refuses Γ rd b ↔ ¬s.Takes Γ fr := by
  constructor
  · rintro (⟨e, he⟩ | ⟨fr', hfr, hno⟩)
    · cases h.symm.trans he
    · cases h.symm.trans hfr
      exact hno
  · exact fun hno => Or.inr ⟨fr, h, hno⟩

theorem overreads_iff : s.Overreads Γ rd b ↔ s.channels.length ≤ fr.channel.toNat ∧ Γ.Readable fr := by
  constructor
  · rintro ⟨fr', hfr, hover⟩
    cases h.symm.trans hfr
    exact hover
  · exact fun hover => ⟨fr, h, hover⟩

end received

/-- The frame in the builder is made and dispatched. -/
theorem decides_receiveFrame {s : ConnectionManager} (hs : Handled s) (n m : Nat) :
    Decides (s.Refuses Γ (.body n m) s.builder) (s.Overreads Γ (.body n m) s.builder) (receiveFrame Γ s) := by
  unfold receiveFrame
  rcases hcreate : s.builder.createFrame Γ.constants with e | fr
  · simp only [Prog.bind_apply, Prog.get_apply, hcreate, Prog.lift_error]
    obtain ⟨hrefuses, hover⟩ := refuses_error (Γ := Γ) (s := s) (received_body (n := n) (m := m) hcreate)
    exact ⟨hrefuses, hover, fun hstuck => FrameBuilder.createFrame_ne_stuck _ _ (hstuck ▸ hcreate)⟩
  · have hreceived := received_body_ok (n := n) (m := m) hcreate
    have hdecides := decides_dispatchFrame (Γ := Γ) hs fr
    simp only [Prog.bind_apply, Prog.get_apply, hcreate, Prog.lift_ok]
    rw [refuses_iff hreceived, overreads_iff hreceived]
    cases hd : dispatchFrame Γ fr s with
    | ok a t =>
      rw [hd] at hdecides
      exact hdecides
    | throws e t =>
      rw [hd] at hdecides
      exact hdecides
    | undefined =>
      rw [hd] at hdecides
      exact hdecides

/-- A valid header lets the buffers of its body be made. -/
theorem exists_bodyBuffer {K : Constants} {b b' : FrameBuilder} {required : Bool}
    (h : b.isBodyReadRequired K = .ok (required, b')) : ∃ v, b'.getBodyBuffer K = .ok v := by
  refine ⟨_, FrameBuilder.getBodyBuffer_eq K fun hinvalid => ?_⟩
  obtain ⟨hvalid, -⟩ := (FrameBuilder.isBodyReadRequired_eq_ok K).mp h
  unfold FrameBuilder.validateHeader at hvalid
  split at hvalid
  · obtain ⟨⟨⟨type, channel, size, last⟩, rest⟩, -, hset⟩ := Except.bind_eq_ok.mp hvalid
    simp only [FrameBuilder.setHeader] at hset
    split_ifs at hset
    · cases hset
      cases hinvalid
    · cases hset
      cases hinvalid
  · rename_i hstate
    cases hvalid
    exact hstate hinvalid

/-- Only the handlers and what is received count. -/
theorem received_congr {s t : ConnectionManager} (hchannels : t.channels = s.channels) {rd rd' : AsyncRead} {b b' : FrameBuilder}
    (hreceived : rd'.received Γ.constants b' = rd.received Γ.constants b) :
    (t.Refuses Γ rd' b' ↔ s.Refuses Γ rd b) ∧ (t.Overreads Γ rd' b' ↔ s.Overreads Γ rd b) := by
  unfold Refuses Overreads
  rw [hreceived, hchannels]
  exact ⟨or_congr_right (exists_congr fun fr => and_congr_right fun _ => not_congr (takes_congr hchannels fr)), Iff.rfl⟩

/-- A read that succeeded. -/
theorem decides_onDone {s : ConnectionManager} (hs : Handled s) (rd : AsyncRead) :
    Decides (s.Refuses Γ rd s.builder) (s.Overreads Γ rd s.builder) (rd.onDone Γ true s) := by
  cases rd with
  | body n m => exact decides_receiveFrame hs n m
  | header =>
    change Decides _ _ (onFrameHeaderRead Γ true s)
    unfold onFrameHeaderRead
    rcases hreq : s.builder.isBodyReadRequired Γ.constants with e | ⟨required, builder⟩
    · simp only [if_true, Prog.bind_apply, Prog.get_apply, hreq, Prog.lift_error]
      have hreceived : AsyncRead.header.received Γ.constants s.builder = .error e := by
        unfold AsyncRead.received
        rw [hreq]
        rfl
      obtain ⟨hrefuses, hover⟩ := refuses_error (Γ := Γ) (s := s) hreceived
      exact ⟨hrefuses, hover, fun hstuck => FrameBuilder.isBodyReadRequired_ne_stuck _ _ (hstuck ▸ hreq)⟩
    · simp only [if_true, Prog.bind_apply, Prog.get_apply, hreq, Prog.lift_ok, Prog.modify_apply, Prog.ite_apply]
      cases required with
      | true =>
        -- The buffers of the body are made, and nothing is received yet.
        have hnothing : AsyncRead.header.received Γ.constants s.builder = .ok none := by
          unfold AsyncRead.received
          rw [hreq]
          rfl
        obtain ⟨⟨⟨n, m⟩, builder'⟩, hbuffer⟩ := exists_bodyBuffer hreq
        rw [if_pos rfl]
        unfold beginBodyRead
        simp only [Prog.bind_apply, Prog.get_apply, hbuffer, Prog.lift_ok, Prog.modify_apply]
        exact refuses_none hnothing
      | false =>
        have hreceived : (AsyncRead.body 0 0).received Γ.constants builder =
            AsyncRead.header.received Γ.constants s.builder := by
          unfold AsyncRead.received
          rw [hreq]
          rfl
        obtain ⟨hrefuses, hoverreads⟩ := received_congr (s := s) (t := { s with builder := builder }) rfl hreceived
        rw [if_neg Bool.false_ne_true]
        exact (decides_receiveFrame (s := { s with builder := builder }) (hs.of_eq rfl) 0 0).congr hrefuses hoverreads

/-! ### Closing -/

/-- The socket failed. -/
theorem decides_onSocketClose {s : ConnectionManager} (hsize : s.channels ≠ [])
    (hchannel : ∀ i h, 1 ≤ i → s.live i = some h → ∃ c, h = .channel c) :
    Decides (∃ i h, 1 ≤ i ∧ s.live i = some h ∧ h.IsClosed) False (onSocketClose s) := by
  by_cases hclosed : ∃ i h, 1 ≤ i ∧ s.live i = some h ∧ h.IsClosed
  · obtain ⟨i, h, hi, hl, hh⟩ := hclosed
    obtain ⟨e, t, hown, ht⟩ := onSocketClose_throws hi hl hh
    rw [ht]
    exact ⟨⟨i, h, hi, hl, hh⟩, not_false, hown⟩
  · have hopen : ∀ i, 1 ≤ i → ∀ h, s.live i = some h → h.IsOpen := by
      intro i hi h hl
      obtain ⟨c, rfl⟩ := hchannel i h hi hl
      exact ⟨c, rfl, Bool.eq_false_iff.mpr fun hsat => hclosed ⟨i, _, hi, hl, c, rfl, hsat⟩⟩
    obtain ⟨t, ht, -⟩ := onSocketClose_ok hsize hopen
    rw [ht]
    exact ⟨hclosed, not_false⟩

/-! ### Steps -/

/-- What a run keeps: its handlers are as they are made. -/
structure Sound (s : ConnectionManager) : Prop where
  handled : Handled s
  isChannel : ∀ i h, 1 ≤ i → s.live i = some h → ∃ c, h = .channel c
  size : s.channels ≠ []

theorem sound_of_run {es : List ConnectionEvent} {r : ConnectionRun} (h : (connectionMachine Γ).run es = some r) :
    Sound r.manager := by
  refine ⟨handled_of_run h, fun i hd hi hl => ?_, fun hnil => ?_⟩
  · obtain ⟨c, hc⟩ := ServiceAux.exists_channelAt h hi hl
    exact ⟨c, Option.some.inj (hl.symm.trans (channelAt_eq_some.mp hc))⟩
  · have hlt := lt_of_live (live_zero_of_run h)
    rw [hnil] at hlt
    exact absurd hlt (Nat.not_lt_zero 0)

/-- An event that opens nothing, reads nothing and reports no error is not fatal. -/
theorem not_fatal {s : ConnectionManager} {e : ConnectionEvent} (herror : e.isError = false) (hopen : e ≠ .startOpenChannel)
    (hread : ∀ i bytes, e ≠ .readDone i (some bytes)) : ¬s.Fatal Γ e := by
  intro h
  cases h with
  | unopened => exact hopen rfl
  | refused => exact hread _ _ rfl
  | closedAgain he =>
    rw [herror] at he
    cases he

/-- Only the bytes of a read can lead past the end. -/
theorem not_outOfBounds {s : ConnectionManager} {e : ConnectionEvent} (hread : ∀ i bytes, e ≠ .readDone i (some bytes)) :
    ¬s.OutOfBounds Γ e := by
  rintro ⟨⟩
  exact hread _ _ rfl

/-- A read got its bytes. -/
theorem fatal_readDone_iff {s : ConnectionManager} {i : Nat} {bytes : List UInt8} {rd : AsyncRead} (hrd : s.reads[i]? = some rd) :
    s.Refuses Γ rd (rd.fill s.builder bytes) ↔ s.Fatal Γ (.readDone i (some bytes)) := by
  constructor
  · exact .refused hrd
  · intro h
    cases h with
    | refused hrd' h =>
      cases hrd.symm.trans hrd'
      exact h
    | closedAgain he => cases he

theorem outOfBounds_readDone_iff {s : ConnectionManager} {i : Nat} {bytes : List UInt8} {rd : AsyncRead}
    (hrd : s.reads[i]? = some rd) : s.Overreads Γ rd (rd.fill s.builder bytes) ↔ s.OutOfBounds Γ (.readDone i (some bytes)) := by
  constructor
  · exact .read hrd
  · intro h
    cases h with
    | read hrd' h =>
      cases hrd.symm.trans hrd'
      exact h

/-- A failure of the socket. -/
theorem decides_of_error {s t : ConnectionManager} {e : ConnectionEvent} (hs : Sound s) (hchannels : t.channels = s.channels)
    (herror : e.isError = true) : Decides (s.Fatal Γ e) (s.OutOfBounds Γ e) (onSocketClose t) := by
  have hlive : t.live = s.live := by
    funext i
    rw [live, hchannels, live]
  have hsize : t.channels ≠ [] := hchannels ▸ hs.size
  refine (decides_onSocketClose hsize (hlive ▸ hs.isChannel)).congr ?_ (iff_of_false not_false ?_)
  · rw [hlive]
    constructor
    · rintro ⟨i, h, hi, hl, hclosed⟩
      exact .closedAgain herror hi hl hclosed
    · intro h
      cases h with
      | unopened => cases herror
      | refused => cases herror
      | closedAgain he hi hl hclosed => exact ⟨_, _, hi, hl, hclosed⟩
  · rintro ⟨⟩
    cases herror

/-- The handler of an event throws exactly when the event is fatal, and goes wrong exactly when it leads past the end. -/
theorem decides_handler {s : ConnectionManager} {e : ConnectionEvent} {o : Outcome Exception ConnectionManager Unit}
    (hs : Sound s) (h : e.handler Γ s = some o) : Decides (s.Fatal Γ e) (s.OutOfBounds Γ e) o := by
  have hharmless : ∀ {o : Outcome Exception ConnectionManager Unit}, Decides False False o → e.isError = false →
      e ≠ .startOpenChannel → (∀ i bytes, e ≠ .readDone i (some bytes)) → Decides (s.Fatal Γ e) (s.OutOfBounds Γ e) o :=
    fun ho herror hopen hread => ho.congr (iff_of_false not_false (not_fatal herror hopen hread))
      (iff_of_false not_false (not_outOfBounds hread))
  cases e with
  | beginWriteFrame fr =>
    cases h
    exact hharmless (decides_runBeginWriteFrame fr s) rfl ConnectionEvent.noConfusion fun _ _ => ConnectionEvent.noConfusion
  | startOpenChannel =>
    cases h
    refine (decides_runStartOpenChannel s).congr Iff.rfl (iff_of_false not_false ?_)
    exact not_outOfBounds fun _ _ => ConnectionEvent.noConfusion
  | writeDone i ok =>
    obtain ⟨w, -, hw⟩ := Option.bind_eq_some_iff.mp h
    split at hw
    · cases hw
    · cases hw
      cases ok with
      | true =>
        exact hharmless (decides_onWriteFrame _) rfl ConnectionEvent.noConfusion fun _ _ => ConnectionEvent.noConfusion
      | false => exact decides_of_error hs rfl rfl
  | readDone i bytes =>
    cases bytes with
    | some bytes =>
      obtain ⟨rd, hrd, ho⟩ := Option.bind_eq_some_iff.mp h
      split at ho
      · cases ho
      · cases ho
        -- The read is no longer outstanding, and its bytes are in the builder.
        have hdone := decides_onDone (Γ := Γ) (s := { s with
          reads := s.reads.eraseIdx i, builder := rd.fill s.builder bytes }) (hs.handled.of_eq rfl) rd
        have hreceived : rd.received Γ.constants (rd.fill s.builder bytes) =
            rd.received Γ.constants (rd.fill s.builder bytes) := rfl
        obtain ⟨hrefuses, hoverreads⟩ := received_congr (s := s) (t := { s with
          reads := s.reads.eraseIdx i, builder := rd.fill s.builder bytes }) rfl hreceived
        exact hdone.congr (hrefuses.trans (fatal_readDone_iff hrd)) (hoverreads.trans (outOfBounds_readDone_iff hrd))
    | none =>
      obtain ⟨rd, -, rfl⟩ := Option.map_eq_some_iff.mp h
      cases rd with
      | header => exact decides_of_error hs rfl rfl
      | body n m => exact decides_of_error hs rfl rfl
  | transmit i => cases h
  | destroyChannel i => cases h
  | beginRpc i method classId methodId => cases h

/-- A step of a run is the handler of its event, if it has one. -/
theorem next_of_handler {s : ConnectionManager} {e : ConnectionEvent} {o : Outcome Exception ConnectionManager Unit}
    (h : e.handler Γ s = some o) : ConnectionRun.next Γ s e = ConnectionRun.afterHandler e o := by
  cases e with
  | beginWriteFrame fr =>
    cases h
    rfl
  | startOpenChannel =>
    cases h
    rfl
  | writeDone i ok =>
    obtain ⟨w, hw, ho⟩ := Option.bind_eq_some_iff.mp h
    split at ho
    · cases ho
    · rename_i hsent
      cases ho
      simp only [ConnectionRun.next, hw, if_neg hsent]
  | readDone i bytes =>
    cases bytes with
    | some bytes =>
      obtain ⟨rd, hrd, ho⟩ := Option.bind_eq_some_iff.mp h
      split at ho
      · cases ho
      · rename_i hsize
        cases ho
        simp only [ConnectionRun.next, hrd, if_neg hsize]
    | none =>
      obtain ⟨rd, hrd, rfl⟩ := Option.map_eq_some_iff.mp h
      simp only [ConnectionRun.next, hrd]
  | transmit i => cases h
  | destroyChannel i => cases h
  | beginRpc i method classId methodId => cases h

/-- Without a handler a step ends nothing. -/
theorem escaped_of_no_handler {s : ConnectionManager} {e : ConnectionEvent} {r : ConnectionRun} (h : e.handler Γ s = none)
    (hnext : ConnectionRun.next Γ s e = some r) : r.escaped = none ∧ ¬s.Fatal Γ e := by
  cases e with
  | beginWriteFrame fr => cases h
  | startOpenChannel => cases h
  | writeDone i ok =>
    simp only [ConnectionRun.next] at hnext
    split at hnext
    · rename_i w hw
      split at hnext
      · cases hnext
      · rename_i hsent
        simp [ConnectionEvent.handler, hw, hsent] at h
    · cases hnext
  | readDone i bytes =>
    simp only [ConnectionRun.next] at hnext
    split at hnext
    · rename_i rd bytes hrd
      split at hnext
      · cases hnext
      · rename_i hsize
        simp [ConnectionEvent.handler, hrd, hsize] at h
    · rename_i rd hrd
      simp [ConnectionEvent.handler, hrd] at h
    · cases hnext
  | transmit i =>
    obtain ⟨t, -, rfl⟩ := Option.map_eq_some_iff.mp hnext
    exact ⟨rfl, not_fatal rfl ConnectionEvent.noConfusion fun _ _ => ConnectionEvent.noConfusion⟩
  | destroyChannel i =>
    refine ⟨escaped_of_user hnext, ?_⟩
    exact not_fatal rfl ConnectionEvent.noConfusion fun _ _ => ConnectionEvent.noConfusion
  | beginRpc i method classId methodId =>
    refine ⟨escaped_of_user hnext, ?_⟩
    exact not_fatal rfl ConnectionEvent.noConfusion fun _ _ => ConnectionEvent.noConfusion

/-- A step ends the run exactly when its event is fatal. -/
theorem escaped_of_next {s : ConnectionManager} {e : ConnectionEvent} {r : ConnectionRun} (hs : Sound s)
    (h : ConnectionRun.next Γ s e = some r) : r.escaped = none ↔ ¬s.Fatal Γ e := by
  rcases hhandler : e.handler Γ s with _ | o
  · obtain ⟨hnone, hfatal⟩ := escaped_of_no_handler hhandler h
    exact iff_of_true hnone hfatal
  · rw [next_of_handler hhandler] at h
    exact (decides_handler hs hhandler).escaped_iff h

end EscapeAux

open EscapeAux

/-- A run goes on exactly as long as none of its steps is fatal in the state it is taken in. -/
theorem thread_survives_iff (Γ : Env) {es : List ConnectionEvent} {r : ConnectionRun}
    (h : (connectionMachine Γ).run es = some r) :
    r.escaped = none ↔ (connectionMachine Γ).Guarded (fun s e => ¬s.manager.Fatal Γ e) es := by
  induction es using List.reverseRecOn generalizing r with
  | nil =>
    cases h
    exact iff_of_true rfl (Machine.guarded_nil _)
  | append_singleton es e ih =>
    obtain ⟨t, hrun, hstep⟩ := Machine.run_snoc_eq_some _ |>.mp h
    obtain ⟨hnone, hnext⟩ := ConnectionRun.next_of_step hstep
    rw [Machine.guarded_snoc, escaped_of_next (sound_of_run hrun) hnext]
    constructor
    · intro he
      refine ⟨(ih hrun).mp hnone, fun t' ht' => ?_⟩
      cases hrun.symm.trans ht'
      exact he
    · exact fun hg => hg.2 t hrun

/-- The read fails, then the write of the `channel.open` does: the second failure is fatal, since the first one closed the
channel. -/
theorem thread_survives_one_failure : ∃ r, (connectionMachine .sample).run [.startOpenChannel, .readDone 0 none,
      .writeDone 0 false] = some r ∧ r.escaped.isSome ∧
    ¬(connectionMachine .sample).Guarded (fun s e => ¬s.manager.Fatal .sample e) [.startOpenChannel, .readDone 0 none,
      .writeDone 0 false] := by
  have hstate : ((connectionMachine .sample).run [.startOpenChannel, .readDone 0 none, .writeDone 0 false]).map
      (fun r => r.escaped.isSome) = some true := by decide +kernel
  obtain ⟨r, hr, hsome⟩ := Option.map_eq_some_iff.mp hstate
  refine ⟨r, hr, hsome, fun hguarded => ?_⟩
  rw [(thread_survives_iff .sample hr).mpr hguarded] at hsome
  cases hsome

/-- A channel that waits for `channel.open_ok` gets an `exchange.declare` with a byte string of length zero. -/
example : ((connectionMachine .sample).run [.startOpenChannel, .readDone 0 (some [1, 0, 1, 0, 0, 0, 20, 0])]).map (fun r =>
    r.manager.misreads .sample (.readDone 0 (some
      [40, 0, 10, 0, 0, 0, 0, 0, 0, 0, 0, 7, 1, 107, 120, 0, 0, 0, 0, 206]))) = some true := by decide +kernel

end Amqpp
