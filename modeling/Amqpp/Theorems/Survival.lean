import Amqpp.Codegen.Checked
import Amqpp.Theorems.Isolation
import Amqpp.Theorems.ReadLoop

/-!
# Which frames end the thread

An exception that leaves `dispatch_frame` leaves the io_service thread. A dispatched frame is survived exactly when it can be
read and nobody is there for it, or a channel that still waits for a frame; so nothing on channel 0 is survived.
-/

namespace Amqpp

/-- The frame is no method frame, or one that can be read. -/
def Env.Readable (Γ : Env) (fr : Frame) : Prop := fr.type = .method → ∃ m, Γ.spec.readFrame fr = .ok m

/-- The frame can be read, and its handler is gone or is that of a channel whose promise is still open. -/
structure ConnectionManager.Takes (Γ : Env) (s : ConnectionManager) (fr : Frame) : Prop where
  readable : Γ.Readable fr
  armed : ∀ h, s.live fr.channel.toNat = some h → ∃ c, h = .channel c ∧ ChannelPromisesAux.Armed c

namespace SurvivalAux

open ConnectionManager ChannelPromisesAux

variable {Γ : Env}

/-! ### A channel -/

section await

variable {classId methodId : UInt16} {setValue : Method → ChannelImpl → Except Exception ChannelImpl}
  {setException : ChannelImpl → Except Exception ChannelImpl} {s : ChannelImpl} {fr : Frame}
  (he : ∃ t, setException s = .ok t)

include he

/-- A frame that can be read ends a handler normally or with a connection exception. -/
theorem awaitMethod_readable (hv : ∀ m, ∃ t, setValue m s = .ok t) (hread : Γ.Readable fr) :
    ∃ t, ChannelImpl.awaitMethod Γ classId methodId setValue setException fr s = .ok () t ∨
      ChannelImpl.awaitMethod Γ classId methodId setValue setException fr s = .throws .connectionException t := by
  obtain ⟨u, hu⟩ := he
  have hexc := Prog.update_of_ok hu
  unfold ChannelImpl.awaitMethod
  by_cases htype : fr.type = .method
  · obtain ⟨m, hm⟩ := hread htype
    obtain ⟨t, ht⟩ := hv m
    have hval := Prog.update_of_ok ht
    by_cases hids : m.classId = classId ∧ m.desc.index = methodId
    · exact ⟨t, Or.inl (by simp [htype, hm, hids, hval])⟩
    · exact ⟨u, Or.inr (by simp [htype, hm, hids, hexc])⟩
  · exact ⟨u, Or.inr (by simp [htype, hexc])⟩

/-- A method frame that cannot be read ends it with what the reader threw. -/
theorem awaitMethod_unreadable {e : Exception} (htype : fr.type = .method) (hread : Γ.spec.readFrame fr = .error e) :
    ∃ t, ChannelImpl.awaitMethod Γ classId methodId setValue setException fr s = .throws e t := by
  obtain ⟨u, hu⟩ := he
  have hexc := Prog.update_of_ok hu
  unfold ChannelImpl.awaitMethod
  exact ⟨u, by simp [htype, hread, hexc]⟩

end await

/-- The handler of a channel that is armed, on any frame. -/
theorem runContinuation_armed {channelId : UInt16} {s : ChannelImpl} (hs : Handles channelId s) (ha : Armed s) (fr : Frame) :
    (Γ.Readable fr → ∃ t, ChannelImpl.runContinuation Γ fr s = .ok () t ∨
      ChannelImpl.runContinuation Γ fr s = .throws .connectionException t) ∧
    ∀ e, fr.type = .method → Γ.spec.readFrame fr = .error e → ∃ t, ChannelImpl.runContinuation Γ fr s = .throws e t := by
  obtain ⟨p, hp, hi⟩ := hs.awaits
  have hunset : s.satisfied p = false := (armed_iff hp).mp ha
  unfold ChannelImpl.runContinuation
  simp only [Prog.bind_apply, Prog.get_apply]
  cases hc : s.continuation with
  | processOpen =>
    rw [hc] at hp
    cases hp
    obtain ⟨u, hu, -⟩ := (ChannelImpl.sets_updateOpened ChannelImpl.once_setException).first s hunset hi
    refine ⟨awaitMethod_readable ⟨u, hu⟩ fun m => ?_, fun e => awaitMethod_unreadable ⟨u, hu⟩⟩
    obtain ⟨t, ht, -⟩ := (ChannelImpl.sets_updateOpened (ChannelImpl.once_setValue true)).first s hunset hi
    exact ⟨t, ht⟩
  | rpcHandler classId methodId promise =>
    rw [hc] at hp
    cases hp
    obtain ⟨u, hu, -⟩ := (ChannelImpl.sets_updateRpc promise ChannelImpl.once_setException).first s hunset hi
    refine ⟨awaitMethod_readable ⟨u, hu⟩ fun m => ?_, fun e => awaitMethod_unreadable ⟨u, hu⟩⟩
    obtain ⟨t, ht, -⟩ := (ChannelImpl.sets_updateRpc promise (ChannelImpl.once_setValue m)).first s hunset hi
    exact ⟨t, ht⟩
  | closedHandler =>
    rw [hc] at hp
    cases hp

/-- `process_frame` of a channel: it returns or throws a connection exception exactly on a frame that can be read when the
channel is armed. -/
theorem processFrame_survives {channelId : UInt16} {s : ChannelImpl} (hs : Handles channelId s) {fr : Frame}
    (hch : fr.channel = s.channelId) :
    (∃ t, ChannelImpl.processFrame Γ fr s = .ok () t ∨ ChannelImpl.processFrame Γ fr s = .throws .connectionException t) ∧
        Γ.Readable fr ∧ Armed s ∨
      (∃ e t, e ≠ .connectionException ∧ e ≠ .stuck ∧ ChannelImpl.processFrame Γ fr s = .throws e t) ∧
        ¬(Γ.Readable fr ∧ Armed s) := by
  by_cases ha : Armed s
  · obtain ⟨hreadable, hunreadable⟩ := runContinuation_armed (Γ := Γ) hs ha fr
    by_cases hread : Γ.Readable fr
    · refine Or.inl ⟨?_, hread, ha⟩
      obtain ⟨t, hok | hthrows⟩ := hreadable hread
      · exact ⟨t, Or.inl (ChannelImpl.processFrame_of_ok Γ hch hok)⟩
      · exact ⟨t, Or.inr (ChannelImpl.processFrame_of_throws Γ hch (Or.inl rfl) hthrows)⟩
    · refine Or.inr ⟨?_, fun h => hread h.1⟩
      obtain ⟨htype, hnone⟩ := Classical.not_imp.mp hread
      rcases he : Γ.spec.readFrame fr with e | m
      · obtain ⟨what, rfl⟩ := Γ.readFrame_error he
        obtain ⟨t, ht⟩ := hunreadable _ htype he
        exact ⟨_, t, by simp, by simp, ChannelImpl.processFrame_of_throws Γ hch (Or.inr (Γ.spec.readFrame_isReadError he)) ht⟩
      · exact absurd ⟨m, he⟩ hnone
  · obtain ⟨p, hp, -⟩ := hs.awaits
    have hsat := ha
    rw [armed_iff hp, Bool.not_eq_false] at hsat
    refine Or.inr ⟨⟨.promiseAlreadySatisfied, s, by simp, by simp, ?_⟩, fun h => ha h.2⟩
    exact ChannelImpl.processFrame_of_satisfied Γ hch hp hsat

/-! ### Dispatching -/

/-- The channels are as they are in a run. -/
def Handled (s : ConnectionManager) : Prop := ∀ i c, s.channelAt i = some c → Handles (UInt16.ofNat i) c

theorem handled_of_run {es : List ConnectionEvent} {r : ConnectionRun} (h : (connectionMachine Γ).run es = some r) :
    Handled r.manager := by
  intro i c hc
  obtain ⟨escaped, hrun, -⟩ := (IsolationAux.projects_of_run h).channel c hc
  exact (IsolationAux.accounts_of_run hrun).handles

/-- `dispatch_frame` on a frame for a channel. -/
theorem dispatchToHandler_survives {s : ConnectionManager} {fr : Frame} {c : ChannelImpl}
    (hl : s.live fr.channel.toNat = some (.channel c)) (hs : Handles (UInt16.ofNat fr.channel.toNat) c) :
    (∃ t, dispatchToHandler Γ fr s = .ok () t) ∧ Γ.Readable fr ∧ Armed c ∨
      (∃ e t, e ≠ .stuck ∧ dispatchToHandler Γ fr s = .throws e t) ∧ ¬(Γ.Readable fr ∧ Armed c) := by
  have hl' := live_eq_some.mp hl
  have hch : fr.channel = c.channelId := by rw [hs.channelId, UInt16.ofNat_toNat]
  have hat : ({ s with calls := s.calls ++ [.processFrame fr.channel.toNat fr] } : ConnectionManager).channelAt
      fr.channel.toNat = some c := channelAt_eq_some.mpr hl
  unfold dispatchToHandler processFrame
  simp only [record, Prog.bind_apply, Prog.modify_apply, Prog.get_apply, hl', Prog.zoom, hat, Prog.tryCatch_apply]
  rcases processFrame_survives (Γ := Γ) hs hch with ⟨⟨d, hok | hthrows⟩, htakes⟩ | ⟨⟨e, d, he, hown, hthrows⟩, htakes⟩
  · rw [hok]
    exact Or.inl ⟨⟨_, rfl⟩, htakes⟩
  · rw [hthrows]
    exact Or.inl ⟨⟨_, rfl⟩, htakes⟩
  · rw [hthrows]
    cases e with
    | connectionException => exact absurd rfl he
    | _ => exact Or.inr ⟨⟨_, _, hown, rfl⟩, htakes⟩

/-- `handle_dead_channel_frame` returns from the frames that can be read. -/
theorem handleDeadChannelFrame_survives (fr : Frame) (s : ConnectionManager) :
    (∃ t, handleDeadChannelFrame Γ fr s = .ok () t) ∧ Γ.Readable fr ∨
      (∃ e t, e ≠ .stuck ∧ handleDeadChannelFrame Γ fr s = .throws e t) ∧ ¬Γ.Readable fr := by
  by_cases hread : Γ.Readable fr
  · obtain ⟨t, ht, -⟩ := DispatchAux.handleDeadChannelFrame_ok Γ hread s
    exact Or.inl ⟨⟨t, ht⟩, hread⟩
  · obtain ⟨htype, hnone⟩ := Classical.not_imp.mp hread
    rcases he : Γ.spec.readFrame fr with e | m
    · obtain ⟨what, rfl⟩ := Γ.readFrame_error he
      exact Or.inr ⟨⟨_, _, by simp, DispatchAux.handleDeadChannelFrame_throws Γ htype he s⟩, hread⟩
    · exact absurd ⟨m, he⟩ hnone

/-- `dispatch_frame` returns from the frames that are taken, and throws on the others. -/
theorem dispatchFrame_survives {s : ConnectionManager} (hs : Handled s) (fr : Frame) :
    dispatchFrame Γ fr s = .undefined ∨ (∃ t, dispatchFrame Γ fr s = .ok () t) ∧ s.Takes Γ fr ∨
      (∃ e t, e ≠ .stuck ∧ dispatchFrame Γ fr s = .throws e t) ∧ ¬s.Takes Γ fr := by
  by_cases hlt : fr.channel.toNat < s.channels.length
  · rw [DispatchAux.dispatchFrame_of_lt Γ hlt]
    rcases hl : s.live fr.channel.toNat with _ | h
    · rw [DispatchAux.dispatchToHandler_expired Γ hlt hl]
      rcases handleDeadChannelFrame_survives (Γ := Γ) fr s with ⟨hok, hread⟩ | ⟨hthrows, hread⟩
      · refine Or.inr (Or.inl ⟨hok, hread, fun h hh => ?_⟩)
        rw [hl] at hh
        cases hh
      · exact Or.inr (Or.inr ⟨hthrows, fun htakes => hread htakes.readable⟩)
    · cases h with
      | channel0 =>
        have hl' := live_eq_some.mp hl
        refine Or.inr (Or.inr ⟨?_, fun htakes => ?_⟩)
        · unfold dispatchToHandler processFrame
          simp only [record, Prog.bind_apply, Prog.modify_apply, Prog.get_apply, hl', Prog.throw_apply, Prog.tryCatch_apply]
          exact ⟨_, _, by simp, rfl⟩
        · obtain ⟨c, hc, -⟩ := htakes.armed _ hl
          cases hc
      | channel c =>
        rcases dispatchToHandler_survives hl (hs _ c (channelAt_eq_some.mpr hl)) with ⟨hok, hread, harmed⟩ | ⟨hthrows, hnot⟩
        · refine Or.inr (Or.inl ⟨hok, hread, fun h hh => ⟨c, ?_, harmed⟩⟩)
          rw [hl] at hh
          exact (Option.some.inj hh).symm
        · refine Or.inr (Or.inr ⟨hthrows, fun htakes => hnot ⟨htakes.readable, ?_⟩⟩)
          obtain ⟨d, hd, harmed⟩ := htakes.armed _ hl
          cases hd
          exact harmed
  · have hge := Nat.le_of_not_lt hlt
    by_cases hread : Γ.Readable fr
    · exact Or.inl (DispatchAux.dispatchFrame_undefined Γ hge hread)
    · obtain ⟨htype, hnone⟩ := Classical.not_imp.mp hread
      rcases he : Γ.spec.readFrame fr with e | m
      · obtain ⟨what, rfl⟩ := Γ.readFrame_error he
        rw [DispatchAux.dispatchFrame_throws Γ hge htype he]
        exact Or.inr (Or.inr ⟨⟨_, _, by simp, DispatchAux.handleDeadChannelFrame_throws Γ htype he s⟩,
          fun htakes => hread htakes.readable⟩)
      · exact absurd ⟨m, he⟩ hnone

/-! ### Steps -/

/-- The handler of a read: it dispatches nothing, or one frame, and goes on exactly when the frame is taken. -/
def Judged (Γ : Env) (s : ConnectionManager) (o : Outcome Exception ConnectionManager Unit) : Prop :=
  o.Leaves (fun t => t.dispatched = s.dispatched) ∨ ∃ fr, match o with
    | .ok _ t => t.dispatched = s.dispatched ++ [fr] ∧ s.Takes Γ fr
    | .throws _ t => t.dispatched = s.dispatched ++ [fr] ∧ ¬s.Takes Γ fr
    | .undefined => True

/-- Only the handlers count. -/
theorem takes_congr {s s' : ConnectionManager} (h : s'.channels = s.channels) (fr : Frame) : s'.Takes Γ fr ↔ s.Takes Γ fr := by
  have hlive : s'.live fr.channel.toNat = s.live fr.channel.toNat := by rw [live, h, live]
  constructor
  · exact fun ht => ⟨ht.readable, fun hd hl => ht.armed hd (hlive.trans hl)⟩
  · exact fun ht => ⟨ht.readable, fun hd hl => ht.armed hd (hlive.symm.trans hl)⟩

/-- Only the handlers and the calls count. -/
theorem Judged.of_eq {s s' : ConnectionManager} {o : Outcome Exception ConnectionManager Unit} (h : Judged Γ s' o)
    (hchannels : s'.channels = s.channels) (hcalls : s'.calls = s.calls) : Judged Γ s o := by
  have hdispatched : s'.dispatched = s.dispatched := by rw [dispatched, hcalls, dispatched]
  rcases h with h | ⟨fr, h⟩
  · exact Or.inl (h.imp fun t ht => ht.trans hdispatched)
  · refine Or.inr ⟨fr, ?_⟩
    cases o with
    | ok a t => exact ⟨hdispatched ▸ h.1, (takes_congr hchannels fr).mp h.2⟩
    | throws e t => exact ⟨hdispatched ▸ h.1, fun htakes => h.2 ((takes_congr hchannels fr).mpr htakes)⟩
    | undefined => trivial

theorem judged_receiveFrame {s : ConnectionManager} (hs : Handled s) : Judged Γ s (receiveFrame Γ s) := by
  unfold receiveFrame
  rcases hcreate : s.builder.createFrame Γ.constants with e | fr
  · simp only [Prog.bind_apply, Prog.get_apply, hcreate, Prog.lift_error]
    exact Or.inl rfl
  · have hdispatched := dispatched_dispatchFrame Γ fr s
    simp only [Prog.bind_apply, Prog.get_apply, hcreate, Prog.lift_ok]
    rcases dispatchFrame_survives (Γ := Γ) hs fr with hundefined | ⟨⟨t, ht⟩, htakes⟩ | ⟨⟨e, t, -, ht⟩, htakes⟩
    · rw [hundefined]
      exact Or.inl trivial
    · rw [ht] at hdispatched ⊢
      exact Or.inr ⟨fr, (ReadLoopAux.dispatched_of_dispatched hdispatched).1, htakes⟩
    · rw [ht] at hdispatched ⊢
      exact Or.inr ⟨fr, (ReadLoopAux.dispatched_of_dispatched hdispatched).1, htakes⟩

theorem Handled.of_eq {s t : ConnectionManager} (h : Handled s) (hchannels : t.channels = s.channels) : Handled t := by
  intro i c hc
  rw [channelAt, hchannels] at hc
  exact h i c hc

/-- A read that succeeded. -/
theorem judged_onDone {s : ConnectionManager} (hs : Handled s) (rd : AsyncRead) : Judged Γ s (rd.onDone Γ true s) := by
  cases rd with
  | body n m => exact judged_receiveFrame hs
  | header =>
    change Judged Γ s (onFrameHeaderRead Γ true s)
    unfold onFrameHeaderRead
    rcases hreq : s.builder.isBodyReadRequired Γ.constants with e | ⟨required, builder⟩
    · simp only [if_true, Prog.bind_apply, Prog.get_apply, hreq, Prog.lift_error]
      exact Or.inl rfl
    · simp only [if_true, Prog.bind_apply, Prog.get_apply, hreq, Prog.lift_ok, Prog.modify_apply, Prog.ite_apply]
      split
      · refine Or.inl ((buffered_beginBodyRead Γ _).imp fun t ht => ?_)
        obtain ⟨builder', reads, rfl⟩ := ht
        rfl
      · have hreceive : Judged Γ { s with builder := builder } (receiveFrame Γ { s with builder := builder }) :=
          judged_receiveFrame (hs.of_eq rfl)
        exact hreceive.of_eq rfl rfl

/-- The completion of a read in a run: it dispatches nothing, or one frame, and ends the run exactly when the frame is not
taken. -/
theorem judged_of_next {m : ConnectionManager} (hm : Handled m) {i : Nat} {bytes : List UInt8} {r : ConnectionRun}
    (h : ConnectionRun.next Γ m (.readDone i (some bytes)) = some r) :
    r.manager.dispatched = m.dispatched ∨
      ∃ fr, r.manager.dispatched = m.dispatched ++ [fr] ∧ (r.escaped = none ↔ m.Takes Γ fr) := by
  simp only [ConnectionRun.next] at h
  split at h
  · rename_i rd bytes' _ hbytes
    split at h
    · cases h
    · have hjudged := (judged_onDone (Γ := Γ) (s := { m with
        reads := m.reads.eraseIdx i, builder := rd.fill m.builder bytes' }) (hm.of_eq rfl) rd).of_eq (s := m) rfl rfl
      cases ho : rd.onDone Γ true { m with reads := m.reads.eraseIdx i, builder := rd.fill m.builder bytes' } with
      | ok a t =>
        rw [ho] at h hjudged
        cases h
        rcases hjudged with hsame | ⟨fr, hfr, htakes⟩
        · exact Or.inl hsame
        · exact Or.inr ⟨fr, hfr, iff_of_true rfl htakes⟩
      | throws e t =>
        rw [ho] at h hjudged
        cases h
        rcases hjudged with hsame | ⟨fr, hfr, htakes⟩
        · exact Or.inl hsame
        · exact Or.inr ⟨fr, hfr, iff_of_false (Option.some_ne_none _) htakes⟩
      | undefined =>
        rw [ho] at h
        cases h
  · rename_i hbytes
    cases hbytes
  · cases h

/-- Channel 0 stays. -/
theorem live_zero_of_effect {s : ConnectionManager} {e : ConnectionEvent} {r : ConnectionRun} (h : Effect Γ s e r)
    (hs : s.live 0 = some .channel0) : r.manager.live 0 = some .channel0 := by
  have hlt := lt_of_live hs
  have hset : ∀ {t : ConnectionManager} {i : Nat} {c : ChannelImpl} {k : Option FrameHandler}, s.channelAt i = some c →
      t.channels = s.channels.set i k → t.live 0 = some .channel0 := by
    intro t i c k hc ht
    have hl := channelAt_eq_some.mp hc
    have hi : (0 : Nat) ≠ i := by
      rintro rfl
      rw [hs] at hl
      cases hl
    rw [live_set (lt_of_live hl) ht, if_neg hi]
    exact hs
  have happend : ∀ {t : ConnectionManager} {k : Option FrameHandler}, t.channels = s.channels ++ [k] → t.live 0 = some .channel0 := by
    intro t k ht
    rw [live, ht, List.getElem?_append_left hlt]
    exact hs
  have htold : ∀ {t : ConnectionManager}, (∀ i, t.live i = s.live i ∨
      ∃ c p, s.live i = some (.channel c) ∧ t.live i = some (.channel { c with channelClosedPromise := p })) →
      t.live 0 = some .channel0 := by
    intro t ht
    rcases ht 0 with h0 | ⟨c, p, hc, -⟩
    · exact h0.trans hs
    · rw [hs] at hc
      cases hc
  cases h with
  | wrote _ h => rw [live, h.channels]; exact hs
  | opening h =>
    cases h with
    | outOfChannels h hr => rw [hr]; exact hs
    | opened h hopen ht hr => exact happend (by rw [hr]; exact ht.channels)
    | lost h hopen e hr => exact happend (by rw [hr])
    | thrown h hopen he hr => exact happend (by rw [hr]; rfl)
  | received h =>
    cases h with
    | buffered h =>
      obtain ⟨builder, reads, hr⟩ := h
      rw [hr]
      exact hs
    | dispatched hs' h ht =>
      obtain ⟨builder, reads, rfl⟩ := hs'
      obtain ⟨builder', reads', hr⟩ := ht
      rw [hr]
      cases h with
      | channel hc hd ht => exact hset hc (by rw [ht]; rfl)
      | channel0 hl ht => rw [ht]; exact hs
      | dead hl ht =>
        change ConnectionManager.live _ 0 = _
        rw [live, ht.channels]
        exact hs
  | writeFailed h => exact htold h.live
  | readFailed h => exact htold h.live
  | expired hc hr => exact hset hc (by rw [hr])
  | requested hc hd hr => exact hset hc (by rw [hr]; rfl)

theorem live_zero_of_run {es : List ConnectionEvent} {r : ConnectionRun} (h : (connectionMachine Γ).run es = some r) :
    r.manager.live 0 = some .channel0 :=
  (connectionMachine Γ).invariant_of_run (I := fun r => r.manager.live 0 = some .channel0) ⟨rfl, fun _ _ _ hs hstep =>
    live_zero_of_effect (ConnectionRun.effect_of_next (ConnectionRun.next_of_step hstep).2) hs⟩ h

/-- Nothing on channel 0 is taken. -/
theorem channel_ne_zero_of_takes {m : ConnectionManager} (hzero : m.live 0 = some .channel0) {fr : Frame} (h : m.Takes Γ fr) :
    fr.channel ≠ 0 := by
  intro hch
  obtain ⟨c, hc, -⟩ := h.armed .channel0 (by rw [hch]; exact hzero)
  cases hc

/-- The handler of a read that succeeded dispatches, and no other. -/
theorem dispatched_of_effect {m : ConnectionManager} {e : ConnectionEvent} {r : ConnectionRun}
    (he : ∀ i bytes, e ≠ .readDone i (some bytes)) (h : Effect Γ m e r) : r.manager.dispatched = m.dispatched := by
  by_cases hread : ∃ i, e = .readDone i none
  · obtain ⟨i, rfl⟩ := hread
    cases h with
    | wrote _ h => exact ReadLoopAux.dispatched_of_wrote h
    | readFailed h => exact (ReadLoopAux.dispatched_of_toldClosing h).trans rfl
  · refine (ReadLoopAux.unread_of_effect (fun i bytes => ?_) h).dispatched
    rintro rfl
    cases bytes with
    | none => exact hread ⟨i, rfl⟩
    | some bytes => exact he i bytes rfl

end SurvivalAux

open SurvivalAux

/-- In every run of a connection, the completion of a read that dispatches a frame ends the run exactly when the frame is not
taken: it is a method frame that cannot be read, or one for channel 0, or one for a channel whose handler has satisfied its
promise already. -/
theorem frame_survives_iff (Γ : Env) {es : List ConnectionEvent} {r r' : ConnectionRun} {i : Nat} {bytes : List UInt8} {fr : Frame}
    (h : (connectionMachine Γ).run es = some r) (hstep : r.step Γ (.readDone i (some bytes)) = some r')
    (hfr : r'.manager.dispatched = r.manager.dispatched ++ [fr]) : r'.escaped = none ↔ r.manager.Takes Γ fr := by
  rcases judged_of_next (handled_of_run h) (ConnectionRun.next_of_step hstep).2 with hsame | ⟨fr', hfr', hiff⟩
  · rw [hsame] at hfr
    simp at hfr
  · obtain rfl : fr' = fr := by
      rw [hfr'] at hfr
      simpa using hfr
    exact hiff

/-- The answer to the opening of channel 1 is taken. -/
theorem frame_survives_openOk : ∃ r r', (connectionMachine .sample).run [.startOpenChannel,
      .readDone 0 (some [1, 0, 1, 0, 0, 0, 8, 0])] = some r ∧
    r.step .sample (.readDone 0 (some [20, 0, 11, 0, 0, 0, 0, 206])) = some r' ∧
    (r'.escaped = none ↔ r.manager.Takes .sample EnvSample.openOkFrame) := by
  have hstate : (((connectionMachine .sample).run [.startOpenChannel, .readDone 0 (some [1, 0, 1, 0, 0, 0, 8, 0])]).bind
      (fun r => (r.step .sample (.readDone 0 (some [20, 0, 11, 0, 0, 0, 0, 206]))).map
        (fun r' => (r.manager.dispatched, r'.manager.dispatched)))) = some ([], [EnvSample.openOkFrame]) := by decide +kernel
  obtain ⟨r, hr, hstate⟩ := Option.bind_eq_some_iff.mp hstate
  obtain ⟨r', hr', hstate⟩ := Option.map_eq_some_iff.mp hstate
  obtain ⟨hbefore, hafter⟩ := Prod.mk.injEq _ _ _ _ |>.mp hstate
  refine ⟨r, r', hr, hr', frame_survives_iff .sample hr hr' ?_⟩
  rw [hbefore, hafter, List.nil_append]

/-- A run that goes on has dispatched no frame for channel 0, of whatever type, and no method frame that cannot be read. -/
theorem ongoing_run_dispatched (Γ : Env) {es : List ConnectionEvent} {r : ConnectionRun}
    (h : (connectionMachine Γ).run es = some r) (hescaped : r.escaped = none) :
    ∀ fr ∈ r.manager.dispatched, fr.channel ≠ 0 ∧ Γ.Readable fr := by
  induction es using List.reverseRecOn generalizing r with
  | nil =>
    cases h
    exact fun fr hfr => absurd hfr List.not_mem_nil
  | append_singleton es e ih =>
    obtain ⟨r₀, hrun, hstep⟩ := Machine.run_snoc_eq_some _ |>.mp h
    obtain ⟨hnone, hnext⟩ := ConnectionRun.next_of_step hstep
    have hbefore := ih hrun hnone
    by_cases hread : ∃ i bytes, e = .readDone i (some bytes)
    · obtain ⟨i, bytes, rfl⟩ := hread
      rcases judged_of_next (handled_of_run hrun) hnext with hsame | ⟨fr, hfr, hiff⟩
      · rwa [hsame]
      · have htakes := hiff.mp hescaped
        rw [hfr, List.forall_mem_append, List.forall_mem_singleton]
        exact ⟨hbefore, channel_ne_zero_of_takes (live_zero_of_run hrun) htakes, htakes.readable⟩
    · rwa [dispatched_of_effect (fun i bytes he => hread ⟨i, bytes, he⟩) (ConnectionRun.effect_of_next hnext)]

/-- The answer has been dispatched, and the run goes on. -/
theorem ongoing_run_dispatched_openOk : ∃ r, (connectionMachine .sample).run [.startOpenChannel,
      .readDone 0 (some [1, 0, 1, 0, 0, 0, 8, 0]), .readDone 0 (some [20, 0, 11, 0, 0, 0, 0, 206])] = some r ∧
    r.manager.dispatched = [EnvSample.openOkFrame] ∧ ∀ fr ∈ r.manager.dispatched, fr.channel ≠ 0 ∧ Env.sample.Readable fr := by
  have hstate : ((connectionMachine .sample).run [.startOpenChannel, .readDone 0 (some [1, 0, 1, 0, 0, 0, 8, 0]),
      .readDone 0 (some [20, 0, 11, 0, 0, 0, 0, 206])]).map (fun r => (r.manager.dispatched, r.escaped.isNone)) =
      some ([EnvSample.openOkFrame], true) := by decide +kernel
  obtain ⟨r, hr, hstate⟩ := Option.map_eq_some_iff.mp hstate
  obtain ⟨hdispatched, hnone⟩ := Prod.mk.injEq _ _ _ _ |>.mp hstate
  exact ⟨r, hr, hdispatched, ongoing_run_dispatched .sample hr (Option.isNone_iff_eq_none.mp hnone)⟩

end Amqpp
