import Amqpp.Connection.Dispatch

/-!
# What a step does

One relation for each thing a handler can do to the manager (submit frames, dispatch a frame, open a channel, close them
all), and `effect_of_next`: every step of a run is one of these. What a step keeps is proved from that, without a look at
the handlers.
-/

namespace Amqpp

/-- The frame of a `channel.open` can be made. -/
def Env.canOpen (Γ : Env) : Bool := (createFromMethod Γ.memory 0 (.create Γ.channel Γ.channelOpen)).isOk

/-- Whether a frame can be made of a method does not depend on the channel. -/
theorem isOk_createFromMethod (memory : Nat → UInt8) (a b : UInt16) (m : Method) :
    (createFromMethod memory a m).isOk = (createFromMethod memory b m).isOk := by
  unfold createFromMethod
  rcases m.write with e | bs
  · rfl
  · by_cases hlen : bs.length ≤ m.getSerializedSize.toNat
    · simp [bind, Except.bind, hlen, pure, Except.pure, Except.isOk, Except.toBool]
    · simp [bind, Except.bind, hlen, throw, throwThe, MonadExceptOf.throw, Except.isOk, Except.toBool]

namespace ConnectionManager

open Prog (Within)

/-- The state of the connection and the promise of its closing are the same. -/
structure SameConnection (s t : ConnectionManager) : Prop where
  state : t.state = s.state
  promise : t.connectionClosedPromise = s.connectionClosedPromise

instance : Std.Refl SameConnection := ⟨fun _ => ⟨rfl, rfl⟩⟩

instance : IsTrans ConnectionManager SameConnection := ⟨fun _ _ _ h h' => ⟨h'.1.trans h.1, h'.2.trans h.2⟩⟩

/-! ## Submitting frames -/

/-- From `s` to `t` frames were submitted and written, and nothing else. -/
structure Wrote (s t : ConnectionManager) : Prop extends SameConnection s t where
  channels : t.channels = s.channels
  channelPromises : t.channelPromises = s.channelPromises
  builder : t.builder = s.builder
  reads : t.reads = s.reads
  calls : ∃ frs : List Frame, t.calls = s.calls ++ frs.map .beginWriteFrame

/-- No frame is submitted. -/
theorem Wrote.of_calls_eq {s t : ConnectionManager} (hstate : t.state = s.state) (hchannels : t.channels = s.channels)
    (hpromise : t.connectionClosedPromise = s.connectionClosedPromise) (hpromises : t.channelPromises = s.channelPromises)
    (hbuilder : t.builder = s.builder) (hreads : t.reads = s.reads) (hcalls : t.calls = s.calls) : Wrote s t :=
  ⟨⟨hstate, hpromise⟩, hchannels, hpromises, hbuilder, hreads, [], hcalls.trans (List.append_nil _).symm⟩

instance : Std.Refl Wrote := ⟨fun _ => .of_calls_eq rfl rfl rfl rfl rfl rfl rfl⟩

instance : IsTrans ConnectionManager Wrote := by
  refine ⟨fun s t u h h' => ⟨trans_of SameConnection h.toSameConnection h'.toSameConnection, h'.channels.trans h.channels,
    h'.channelPromises.trans h.channelPromises, h'.builder.trans h.builder, h'.reads.trans h.reads, ?_⟩⟩
  obtain ⟨frs, hfrs⟩ := h.calls
  obtain ⟨frs', hfrs'⟩ := h'.calls
  exact ⟨frs ++ frs', by rw [hfrs', hfrs, List.append_assoc, List.map_append]⟩

/-- Of the calls that frames are not submitted by, none is new. -/
theorem Wrote.filterMap_calls {α : Type} {s t : ConnectionManager} (h : Wrote s t) (p : Call → Option α)
    (hp : ∀ fr, p (.beginWriteFrame fr) = none) : t.calls.filterMap p = s.calls.filterMap p := by
  obtain ⟨frs, hfrs⟩ := h.calls
  have hnone : (frs.map Call.beginWriteFrame).filterMap p = [] := by
    rw [List.filterMap_map]
    exact List.filterMap_eq_nil_iff.mpr fun fr _ => hp fr
  rw [hfrs, List.filterMap_append, hnone, List.append_nil]

section writing

variable (Γ : Env)

theorem wrote_record (fr : Frame) : Within Wrote (record (.beginWriteFrame fr)) :=
  Within.modify fun _ => ⟨⟨rfl, rfl⟩, rfl, rfl, rfl, rfl, [fr], rfl⟩

theorem wrote_allocate (fr : Frame) : Within Wrote (allocate fr) := fun _ => .of_calls_eq rfl rfl rfl rfl rfl rfl rfl

theorem wrote_writeFront : Within Wrote (writeFront Γ) := by
  refine Within.get.bind fun s => ?_
  split
  · exact Within.undefined
  · exact Within.modify fun _ => .of_calls_eq rfl rfl rfl rfl rfl rfl rfl

theorem wrote_beginWriteFrame (fr : FramePtr) : Within Wrote (beginWriteFrame Γ fr) := by
  refine (wrote_record _).bind fun _ => Within.get.bind fun s => Within.ite ?_ (Within.pure _)
  refine Within.bind ?_ fun _ => Within.ite (wrote_writeFront Γ) (Within.pure _)
  exact Within.modify fun _ => .of_calls_eq rfl rfl rfl rfl rfl rfl rfl

theorem wrote_runBeginWriteFrame (fr : Frame) : Within Wrote (runBeginWriteFrame Γ fr) :=
  (wrote_allocate fr).bind fun _ => wrote_beginWriteFrame Γ _

/-- A write that succeeded. -/
theorem wrote_onWriteFrame : Within Wrote (onWriteFrame Γ true) := by
  refine Within.get.bind fun s => Within.ite (wrote_writeFront Γ) ?_
  exact Within.modify fun _ => .of_calls_eq rfl rfl rfl rfl rfl rfl rfl

/-- `begin_write_frame` returns. -/
theorem beginWriteFrame_ok (fr : FramePtr) (s : ConnectionManager) : ∃ t, beginWriteFrame Γ fr s = .ok () t ∧ Wrote s t := by
  have hwrote := wrote_beginWriteFrame Γ fr s
  obtain ⟨t, ht, -⟩ := DispatchAux.beginWriteFrame_calls Γ fr s
  rw [ht] at hwrote
  exact ⟨t, ht, hwrote⟩

theorem wrote_of_transmit {K : Constants} {i : Nat} {s t : ConnectionManager} (h : s.transmit K i = some t) : Wrote s t := by
  obtain ⟨w, -, hw⟩ := Option.bind_eq_some_iff.mp h
  obtain ⟨b, -, hb⟩ := Option.bind_eq_some_iff.mp hw
  cases hb
  exact .of_calls_eq rfl rfl rfl rfl rfl rfl rfl

end writing

/-! ## Dispatching a frame -/

/-- The call of `process_frame` is noted. -/
def noteFrame (fr : Frame) (s : ConnectionManager) : ConnectionManager :=
  { s with calls := s.calls ++ [.processFrame fr.channel.toNat fr] }

/-- From `s` to `t` a frame was dispatched: to the channel with its number, to channel 0, or to nobody. -/
inductive Dispatched (Γ : Env) (fr : Frame) (s t : ConnectionManager) : Prop where
  | channel {c d : ChannelImpl} (hc : s.channelAt fr.channel.toNat = some c)
      (hd : (ChannelImpl.processFrame Γ fr c).Ends (· = d)) (ht : t = (s.noteFrame fr).setChannel fr.channel.toNat d)
  | channel0 (hl : s.live fr.channel.toNat = some .channel0) (ht : t = s.noteFrame fr)
  | dead (hl : s.live fr.channel.toNat = none) (ht : (s.noteDead fr).Wrote t)

/-- `handle_dead_channel_frame`, however it ends. -/
theorem wrote_handleDeadChannelFrame (Γ : Env) (fr : Frame) (s : ConnectionManager) :
    (handleDeadChannelFrame Γ fr s).Leaves (s.noteDead fr).Wrote := by
  by_cases hclose : Γ.ReadsClose fr
  · rw [DispatchAux.handleDeadChannelFrame_close Γ hclose]
    refine Within.leaves_trans (R := Wrote) (t := { s.noteDead fr with allocated := s.allocated + 1 }) ?_
      (wrote_beginWriteFrame Γ _ _)
    exact .of_calls_eq rfl rfl rfl rfl rfl rfl rfl
  · by_cases hthrows : fr.type = .method ∧ ∃ e, Γ.spec.readFrame fr = .error e
    · obtain ⟨htype, e, hread⟩ := hthrows
      rw [DispatchAux.handleDeadChannelFrame_throws Γ htype hread]
      exact refl_of Wrote _
    · rw [DispatchAux.handleDeadChannelFrame_drop Γ hclose (DispatchAux.exists_read hthrows)]
      exact refl_of Wrote _

/-- `process_frame` on a live handler. -/
theorem dispatched_processFrame (Γ : Env) {fr : Frame} {s : ConnectionManager} {h : FrameHandler}
    (hl : s.live fr.channel.toNat = some h) : (processFrame Γ fr.channel.toNat fr s).Leaves (Dispatched Γ fr s) := by
  have hl' := live_eq_some.mp hl
  unfold processFrame
  cases h with
  | channel0 =>
    simp only [record, Prog.bind_apply, Prog.modify_apply, Prog.get_apply, hl', Prog.throw_apply]
    exact .channel0 hl rfl
  | channel c =>
    have hat : ({ s with calls := s.calls ++ [.processFrame fr.channel.toNat fr] } : ConnectionManager).channelAt
        fr.channel.toNat = some c := channelAt_eq_some.mpr hl
    simp only [record, Prog.bind_apply, Prog.modify_apply, Prog.get_apply, hl', Prog.zoom, hat]
    cases hp : ChannelImpl.processFrame Γ fr c with
    | ok a d => exact .channel (channelAt_eq_some.mpr hl) (by rw [hp]; exact rfl) rfl
    | throws e d => exact .channel (channelAt_eq_some.mpr hl) (by rw [hp]; exact rfl) rfl
    | undefined => trivial

/-- `dispatch_frame`, however it ends. -/
theorem dispatched_dispatchFrame (Γ : Env) (fr : Frame) (s : ConnectionManager) :
    (dispatchFrame Γ fr s).Leaves (Dispatched Γ fr s) := by
  by_cases hlt : fr.channel.toNat < s.channels.length
  · rw [DispatchAux.dispatchFrame_of_lt Γ hlt]
    rcases hl : s.live fr.channel.toNat with _ | h
    · rw [DispatchAux.dispatchToHandler_expired Γ hlt hl]
      exact (wrote_handleDeadChannelFrame Γ fr s).imp fun t ht => .dead hl ht
    · unfold dispatchToHandler
      simp only [Prog.bind_apply, Prog.get_apply, live_eq_some.mp hl]
      refine Prog.leaves_tryCatch (dispatched_processFrame Γ hl) fun e t ht => ?_
      cases e with
      | connectionException => exact ht
      | _ => exact ht
  · -- Past the end nothing comes back but what the first action throws.
    have hge := Nat.le_of_not_lt hlt
    by_cases hthrows : fr.type = .method ∧ ∃ e, Γ.spec.readFrame fr = .error e
    · obtain ⟨htype, e, hread⟩ := hthrows
      rw [DispatchAux.dispatchFrame_throws Γ hge htype hread, DispatchAux.handleDeadChannelFrame_throws Γ htype hread]
      refine .dead ?_ (refl_of Wrote _)
      rw [live, List.getElem?_eq_none hge]
      rfl
    · rw [DispatchAux.dispatchFrame_undefined Γ hge (DispatchAux.exists_read hthrows)]
      trivial

/-! ## Receiving -/

/-- From `s` to `t` only the builder and the reads changed. -/
def Buffered (s t : ConnectionManager) : Prop := ∃ builder reads, t = { s with builder := builder, reads := reads }

theorem Buffered.refl (s : ConnectionManager) : s.Buffered s := ⟨_, _, rfl⟩

theorem Buffered.trans {s t u : ConnectionManager} (h : s.Buffered t) (h' : t.Buffered u) : s.Buffered u := by
  obtain ⟨builder, reads, rfl⟩ := h
  obtain ⟨builder', reads', rfl⟩ := h'
  exact ⟨builder', reads', rfl⟩

/-- From `s` to `t` a read was answered, and at most one frame dispatched. -/
inductive Received (Γ : Env) (s t : ConnectionManager) : Prop where
  | buffered (h : s.Buffered t)
  | dispatched {fr : Frame} {s' t' : ConnectionManager} (hs : s.Buffered s') (h : Dispatched Γ fr s' t') (ht : t'.Buffered t)

theorem Received.of_buffered {Γ : Env} {s s' t : ConnectionManager} (hs : s.Buffered s') (h : Received Γ s' t) : Received Γ s t := by
  cases h with
  | buffered h => exact .buffered (hs.trans h)
  | dispatched hs' h ht => exact .dispatched (hs.trans hs') h ht

theorem received_receiveFrame (Γ : Env) (s : ConnectionManager) : (receiveFrame Γ s).Leaves (Received Γ s) := by
  unfold receiveFrame
  rcases hcreate : s.builder.createFrame Γ.constants with e | fr
  · simp only [Prog.bind_apply, Prog.get_apply, hcreate, Prog.lift_error]
    exact .buffered (.refl s)
  · have hd := dispatched_dispatchFrame Γ fr s
    simp only [Prog.bind_apply, Prog.get_apply, hcreate, Prog.lift_ok]
    cases hh : dispatchFrame Γ fr s with
    | ok a t =>
      rw [hh] at hd
      exact .dispatched (.refl s) hd ⟨_, _, rfl⟩
    | throws e t =>
      rw [hh] at hd
      exact .dispatched (.refl s) hd (.refl t)
    | undefined => trivial

theorem buffered_beginBodyRead (Γ : Env) (s : ConnectionManager) : (beginBodyRead Γ s).Leaves s.Buffered := by
  unfold beginBodyRead
  rcases hbuffer : s.builder.getBodyBuffer Γ.constants with e | ⟨⟨n, m⟩, builder⟩
  · simp only [Prog.bind_apply, Prog.get_apply, hbuffer, Prog.lift_error]
    exact .refl s
  · simp only [Prog.bind_apply, Prog.get_apply, hbuffer, Prog.lift_ok, Prog.modify_apply]
    exact ⟨_, _, rfl⟩

/-- A read that succeeded. -/
theorem received_onDone (Γ : Env) (r : AsyncRead) (s : ConnectionManager) : (r.onDone Γ true s).Leaves (Received Γ s) := by
  cases r with
  | header =>
    change (onFrameHeaderRead Γ true s).Leaves _
    unfold onFrameHeaderRead
    rcases hreq : s.builder.isBodyReadRequired Γ.constants with e | ⟨required, builder⟩
    · simp only [if_true, Prog.bind_apply, Prog.get_apply, hreq, Prog.lift_error]
      exact .buffered (.refl s)
    · have hs : s.Buffered { s with builder := builder } := ⟨_, _, rfl⟩
      simp only [if_true, Prog.bind_apply, Prog.get_apply, hreq, Prog.lift_ok, Prog.modify_apply, Prog.ite_apply]
      split
      · exact (buffered_beginBodyRead Γ _).imp fun t ht => .buffered (hs.trans ht)
      · exact (received_receiveFrame Γ _).imp fun t ht => ht.of_buffered hs
  | body n m => exact received_receiveFrame Γ s

/-! ## Closing the channels -/

/-- From `s` to `t` nothing happened to handlers but calls of `close_async`. -/
structure ToldClosing (s t : ConnectionManager) : Prop extends SameConnection s t where
  channelPromises : t.channelPromises = s.channelPromises
  builder : t.builder = s.builder
  reads : t.reads = s.reads
  length : t.channels.length = s.channels.length
  live : ∀ i, t.live i = s.live i ∨
    ∃ c p, s.live i = some (.channel c) ∧ t.live i = some (.channel { c with channelClosedPromise := p })
  calls : ∃ is : List Nat, t.calls = s.calls ++ is.map .closeAsync

instance : Std.Refl ToldClosing :=
  ⟨fun _ => ⟨⟨rfl, rfl⟩, rfl, rfl, rfl, rfl, fun _ => Or.inl rfl, [], (List.append_nil _).symm⟩⟩

instance : IsTrans ConnectionManager ToldClosing := by
  refine ⟨fun s t u h h' => ⟨trans_of SameConnection h.toSameConnection h'.toSameConnection,
    h'.channelPromises.trans h.channelPromises, h'.builder.trans h.builder, h'.reads.trans h.reads, h'.length.trans h.length, fun i => ?_, ?_⟩⟩
  · rcases h'.live i with hu | ⟨d, q, ht, hu⟩
    · rw [hu]
      exact h.live i
    · rcases h.live i with ht' | ⟨c, p, hs, ht'⟩
      · exact Or.inr ⟨d, q, ht'.symm.trans ht, hu⟩
      · rw [ht'] at ht
        cases ht
        exact Or.inr ⟨c, q, hs, hu⟩
  · obtain ⟨is, his⟩ := h.calls
    obtain ⟨js, hjs⟩ := h'.calls
    exact ⟨is ++ js, by rw [hjs, his, List.append_assoc, List.map_append]⟩

/-- Of the calls that are not `close_async`, none is new. -/
theorem ToldClosing.filterMap_calls {α : Type} {s t : ConnectionManager} (h : ToldClosing s t) (p : Call → Option α)
    (hp : ∀ i, p (.closeAsync i) = none) : t.calls.filterMap p = s.calls.filterMap p := by
  obtain ⟨is, his⟩ := h.calls
  have hnone : (is.map Call.closeAsync).filterMap p = [] := by
    rw [List.filterMap_map]
    exact List.filterMap_eq_nil_iff.mpr fun i _ => hp i
  rw [his, List.filterMap_append, hnone, List.append_nil]

theorem toldClosing_record (i : Nat) : Within ToldClosing (record (.closeAsync i)) :=
  Within.modify fun _ => ⟨⟨rfl, rfl⟩, rfl, rfl, rfl, rfl, fun _ => Or.inl rfl, [i], rfl⟩

/-- `close_async` touches the promise of the closing only. -/
theorem closeAsync_leaves (c : ChannelImpl) :
    (ChannelImpl.closeAsync c).Leaves fun d => ∃ p, d = { c with channelClosedPromise := p } := by
  cases hsat : c.channelClosedPromise.isSatisfied with
  | true =>
    rw [ChannelImpl.closeAsync_of_satisfied hsat]
    exact ⟨_, rfl⟩
  | false =>
    rw [ChannelImpl.closeAsync_of_unset (Promise.eq_unset hsat)]
    exact ⟨_, rfl⟩

theorem toldClosing_closeAsync (i : Nat) :
    Within ToldClosing (Prog.zoom (channelAt i) (setChannel i) ChannelImpl.closeAsync) := by
  have hwithin : Within (fun c d => ∃ p, d = { c with channelClosedPromise := p }) ChannelImpl.closeAsync := closeAsync_leaves
  refine hwithin.zoom ?_
  rintro s c _ hc ⟨p, rfl⟩
  have hlive := channelAt_eq_some.mp hc
  refine ⟨⟨rfl, rfl⟩, rfl, rfl, rfl, List.length_set, fun j => ?_, [], (List.append_nil _).symm⟩
  rw [live_set (t := s.setChannel i _) (lt_of_live hlive) rfl]
  by_cases hj : j = i
  · rw [if_pos hj, hj]
    exact Or.inr ⟨c, p, hlive, rfl⟩
  · rw [if_neg hj]
    exact Or.inl rfl

theorem toldClosing_closeEach (is : List Nat) : Within ToldClosing (closeEach is) := by
  induction is with
  | nil => exact Within.pure _
  | cons i is ih =>
    refine Within.bind (Within.get.bind fun s => ?_) fun _ => ih
    split
    · exact (toldClosing_record _).bind fun _ => Within.throw _
    · exact (toldClosing_record _).bind fun _ => toldClosing_closeAsync i
    · exact Within.pure _

/-- `on_socket_close`, however it ends. -/
theorem toldClosing_onSocketClose (s : ConnectionManager) :
    (onSocketClose s).Leaves (ToldClosing { s with state := .closedState }) := by
  have hclose : Within ToldClosing closeChannels :=
    Within.get.bind fun s => Within.ite Within.undefined (toldClosing_closeEach _)
  exact hclose { s with state := .closedState }

/-! ## Opening a channel -/

/-- A new channel at the end of the table. -/
def pushChannel (s : ConnectionManager) : ConnectionManager :=
  { s with channels := s.channels ++ [some (.channel (.create (UInt16.ofNat s.channels.length)))] }

/-- What the handler of a posted `start_open_channel` makes of `s`. -/
inductive Opening (Γ : Env) (s : ConnectionManager) (r : ConnectionRun) : Prop where
  | outOfChannels (h : 65535 < s.channels.length)
      (hr : r = ⟨{ s with channelPromises := s.channelPromises ++ [.exception (.runtimeError "Out of channels!")] }, none⟩)
  | opened (h : s.channels.length ≤ 65535) (hopen : Γ.canOpen = true) {t : ConnectionManager}
      (ht : Wrote { s.pushChannel with channelPromises := s.channelPromises ++ [.value s.channels.length] } t) (hr : r = ⟨t, none⟩)
  /-- The frame could not be made: the new channel is gone at once. -/
  | lost (h : s.channels.length ≤ 65535) (hopen : Γ.canOpen = false) (e : Exception)
      (hr : r.manager = { s with channels := s.channels ++ [none], channelPromises := s.channelPromises ++ [.exception e] })
  /-- What was thrown is not caught: the run ends. -/
  | thrown (h : s.channels.length ≤ 65535) (hopen : Γ.canOpen = false) (he : r.escaped ≠ none)
      (hr : r.manager = { s.pushChannel with channelPromises := s.channelPromises ++ [.unset] })

/-- The last promise is given its value. -/
theorem setChannelPromise_last (set : Promise Exception Nat → Except Exception (Promise Exception Nat))
    {s : ConnectionManager} {ps : List (Promise Exception Nat)} {v : Promise Exception Nat} (hs : s.channelPromises = ps ++ [.unset])
    (hset : set .unset = .ok v) : setChannelPromise ps.length set s = .ok () { s with channelPromises := ps ++ [v] } := by
  refine Prog.update_of_ok ?_
  simp [hs, hset, bind, Except.bind, pure, Except.pure]

/-- The last entry of a table is replaced. -/
theorem set_last (hs : List (Option FrameHandler)) (h k : Option FrameHandler) : (hs ++ [h]).set hs.length k = hs ++ [k] := by
  rw [List.set_append_right _ _ (Nat.le_refl _), Nat.sub_self]
  rfl

/-- The channel that a table just got is released. -/
theorem releaseChannel_last (Γ : Env) {s : ConnectionManager} {c : ChannelImpl} {hs : List (Option FrameHandler)}
    (h : s.channels = hs ++ [some (.channel c)]) :
    (releaseChannel Γ hs.length s).Leaves (· = { s with channels := hs ++ [none] }) := by
  have hat : s.channelAt hs.length = some c := by
    rw [channelAt_eq_some, live_eq_some, h, List.getElem?_concat_length]
  have hset : s.channels.set hs.length none = hs ++ [none] := by rw [h, set_last]
  unfold releaseChannel
  simp only [Prog.zoom, hat, hset]
  cases ChannelImpl.destroy Γ c with
  | ok a d => rfl
  | throws e d => rfl
  | undefined => trivial

/-- A full table: the promise gets an exception, and nothing else happens. -/
theorem runStartOpenChannel_full (Γ : Env) {s : ConnectionManager} (h : 65535 < s.channels.length) :
    runStartOpenChannel Γ s = .ok ()
      { s with channelPromises := s.channelPromises ++ [.exception (.runtimeError "Out of channels!")] } := by
  have hpromise := setChannelPromise_last (Promise.setException .promiseAlreadySatisfied (.runtimeError "Out of channels!"))
    (s := { s with channelPromises := s.channelPromises ++ [.unset] }) rfl rfl
  unfold runStartOpenChannel startOpenChannel createNextChannel
  simp [h, Exception.isRuntimeError, Exception.copyRuntimeError, hpromise]

section opening

variable {Γ : Env} {s : ConnectionManager} (h : s.channels.length ≤ 65535)

include h

theorem createNextChannel_of_le : createNextChannel s = .ok s.channels.length s.pushChannel := by
  unfold createNextChannel
  simp [Nat.not_lt.mpr h, pushChannel]

/-- The frame of a new channel cannot be made. -/
theorem runStartOpenChannel_of_error {ex : Exception}
    (hframe : createFromMethod Γ.memory (UInt16.ofNat s.channels.length) (.create Γ.channel Γ.channelOpen) = .error ex) :
    runStartOpenChannel Γ s =
      if ex.isRuntimeError then
        releaseChannel Γ s.channels.length
          { s.pushChannel with channelPromises := s.channelPromises ++ [.exception ex.copyRuntimeError] }
      else .throws ex { s.pushChannel with channelPromises := s.channelPromises ++ [.unset] } := by
  have hpush := createNextChannel_of_le (s := { s with channelPromises := s.channelPromises ++ [.unset] }) h
  have hpromise := setChannelPromise_last (Promise.setException .promiseAlreadySatisfied ex.copyRuntimeError)
    (s := ({ s with channelPromises := s.channelPromises ++ [.unset] } : ConnectionManager).pushChannel) rfl rfl
  have hlt : s.channels.length < s.pushChannel.channels.length := by simp [pushChannel]
  unfold runStartOpenChannel startOpenChannel createFrame
  simp only [Prog.bind_apply, Prog.get_apply, Prog.modify_apply, Prog.tryCatch_apply, hpush, hframe, Prog.lift_error,
    Prog.ite_apply, Prog.throw_apply, hpromise]
  split
  · exact if_pos hlt
  · rfl

/-- The frame of a new channel is submitted. -/
theorem runStartOpenChannel_of_ok {fr : Frame}
    (hframe : createFromMethod Γ.memory (UInt16.ofNat s.channels.length) (.create Γ.channel Γ.channelOpen) = .ok fr) :
    ∃ t, runStartOpenChannel Γ s = .ok () t ∧
      Wrote { s.pushChannel with channelPromises := s.channelPromises ++ [.value s.channels.length] } t := by
  have hpush := createNextChannel_of_le (s := { s with channelPromises := s.channelPromises ++ [.unset] }) h
  obtain ⟨t, ht, hwrote⟩ := beginWriteFrame_ok Γ ⟨s.allocated, fr⟩
    { ({ s with channelPromises := s.channelPromises ++ [.unset] } : ConnectionManager).pushChannel with
      allocated := s.allocated + 1 }
  have hpromise := setChannelPromise_last (Promise.setValue .promiseAlreadySatisfied s.channels.length)
    hwrote.channelPromises rfl
  refine ⟨{ t with channelPromises := s.channelPromises ++ [.value s.channels.length] }, ?_, ⟨hwrote.state, hwrote.promise⟩,
    hwrote.channels, rfl, hwrote.builder, hwrote.reads, hwrote.calls⟩
  have hallocate : allocate fr ({ s with channelPromises := s.channelPromises ++ [.unset] } : ConnectionManager).pushChannel =
      .ok ⟨s.allocated, fr⟩ { ({ s with channelPromises := s.channelPromises ++ [.unset] } : ConnectionManager).pushChannel with
        allocated := s.allocated + 1 } := rfl
  unfold runStartOpenChannel startOpenChannel createFrame
  simp only [Prog.bind_apply, Prog.get_apply, Prog.modify_apply, Prog.tryCatch_apply, hpush, hframe, Prog.lift_ok, hallocate, ht,
    hpromise]

end opening

theorem opening_runStartOpenChannel {Γ : Env} {e : ConnectionEvent} {s : ConnectionManager} {r : ConnectionRun}
    (h : ConnectionRun.afterHandler e (runStartOpenChannel Γ s) = some r) : Opening Γ s r := by
  by_cases hfull : 65535 < s.channels.length
  · rw [runStartOpenChannel_full Γ hfull] at h
    cases h
    exact .outOfChannels hfull rfl
  · have hle := Nat.le_of_not_lt hfull
    have hopen := isOk_createFromMethod Γ.memory 0 (UInt16.ofNat s.channels.length) (.create Γ.channel Γ.channelOpen)
    rcases hframe : createFromMethod Γ.memory (UInt16.ofNat s.channels.length) (.create Γ.channel Γ.channelOpen) with ex | fr
    · rw [hframe] at hopen
      rw [runStartOpenChannel_of_error hle hframe] at h
      split at h
      · exact .lost hle hopen _ (ConnectionRun.afterHandler_leaves h (releaseChannel_last Γ rfl))
      · cases h
        exact .thrown hle hopen (Option.some_ne_none _) rfl
    · rw [hframe] at hopen
      obtain ⟨t, ht, hwrote⟩ := runStartOpenChannel_of_ok hle hframe
      rw [ht] at h
      cases h
      exact .opened hle hopen hwrote rfl

/-! ## Steps -/

/-- What an event does to a manager. -/
inductive Effect (Γ : Env) (m : ConnectionManager) : ConnectionEvent → ConnectionRun → Prop where
  | wrote {e : ConnectionEvent} {r : ConnectionRun} (he : e.isError = false) (h : m.Wrote r.manager) : Effect Γ m e r
  | opening {r : ConnectionRun} (h : Opening Γ m r) : Effect Γ m .startOpenChannel r
  | received {i : Nat} {bytes : List UInt8} {r : ConnectionRun} (h : Received Γ m r.manager) :
      Effect Γ m (.readDone i (some bytes)) r
  | writeFailed {i : Nat} {r : ConnectionRun}
      (h : ToldClosing { m with writes := m.writes.eraseIdx i, state := .closedState } r.manager) : Effect Γ m (.writeDone i false) r
  | readFailed {i : Nat} {r : ConnectionRun}
      (h : ToldClosing { m with reads := m.reads.eraseIdx i, state := .closedState } r.manager) : Effect Γ m (.readDone i none) r
  | expired {i : Nat} {c : ChannelImpl} {r : ConnectionRun} (hc : m.channelAt i = some c)
      (hr : r.manager = { m with channels := m.channels.set i none }) : Effect Γ m (.destroyChannel i) r
  | requested {i : Nat} {method : Method} {classId methodId : UInt16} {c d : ChannelImpl} {r : ConnectionRun}
      (hc : m.channelAt i = some c) (hd : c.SameClosing d) (hr : r.manager = m.setChannel i d) :
      Effect Γ m (.beginRpc i method classId methodId) r

/-- No step satisfies the promise of the connection's closing. -/
theorem Effect.closedPromise {Γ : Env} {m : ConnectionManager} {e : ConnectionEvent} {r : ConnectionRun} (h : Effect Γ m e r) :
    r.manager.connectionClosedPromise = m.connectionClosedPromise := by
  cases h with
  | wrote _ h => exact h.promise
  | opening h =>
    cases h with
    | outOfChannels h hr => rw [hr]
    | opened h hopen ht hr => rw [hr, ht.promise]; rfl
    | lost h hopen e hr => rw [hr]
    | thrown h hopen he hr => rw [hr]; rfl
  | received h =>
    cases h with
    | buffered h =>
      obtain ⟨builder, reads, hr⟩ := h
      rw [hr]
    | dispatched hs h ht =>
      obtain ⟨builder, reads, rfl⟩ := hs
      obtain ⟨builder', reads', hr⟩ := ht
      rw [hr]
      cases h with
      | channel hc hd ht => rw [ht]; rfl
      | channel0 hl ht => rw [ht]; rfl
      | dead hl ht => exact ht.promise
  | writeFailed h => exact h.promise
  | readFailed h => exact h.promise
  | expired hc hr => rw [hr]
  | requested hc hd hr => rw [hr]; rfl

end ConnectionManager

namespace ConnectionRun

open ConnectionManager

variable {Γ : Env}

/-- Every step is one of the effects. -/
theorem effect_of_next {m : ConnectionManager} {e : ConnectionEvent} {r : ConnectionRun} (h : next Γ m e = some r) :
    Effect Γ m e r := by
  cases e with
  | beginWriteFrame fr => exact .wrote rfl (afterHandler_leaves h (wrote_runBeginWriteFrame Γ fr m))
  | startOpenChannel => exact .opening (opening_runStartOpenChannel h)
  | transmit i =>
    obtain ⟨t, ht, rfl⟩ := Option.map_eq_some_iff.mp h
    exact .wrote rfl (wrote_of_transmit ht)
  | writeDone i ok =>
    simp only [next] at h
    split at h
    · split at h
      · cases h
      · cases ok with
        | true =>
          refine .wrote rfl (trans_of Wrote (b := { m with writes := m.writes.eraseIdx i }) ?_
            (afterHandler_leaves h (wrote_onWriteFrame Γ _)))
          exact .of_calls_eq rfl rfl rfl rfl rfl rfl rfl
        | false => exact .writeFailed (afterHandler_leaves h (toldClosing_onSocketClose _))
    · cases h
  | readDone i bytes =>
    simp only [next] at h
    split at h
    · split at h
      · cases h
      · exact .received ((afterHandler_leaves h (received_onDone Γ _ _)).of_buffered ⟨_, _, rfl⟩)
    · rename_i r _
      cases r with
      | header => exact .readFailed (afterHandler_leaves h (toldClosing_onSocketClose _))
      | body n k => exact .readFailed (afterHandler_leaves h (toldClosing_onSocketClose _))
    · cases h
  | destroyChannel i =>
    obtain ⟨c, d, hc, -, hr⟩ := afterUser_leaves h (Prog.Within.leaves_zoom (ChannelImpl.destroyed_destroy Γ) m)
    exact .expired hc hr
  | beginRpc i method classId methodId =>
    obtain ⟨c, d, hc, hd, hr⟩ := afterUser_leaves h
      (Prog.Within.leaves_zoom (ChannelImpl.within_beginRpc Γ method classId methodId) m)
    exact .requested hc hd hr

end ConnectionRun

end Amqpp
