import Amqpp.Connection.Effects
import Amqpp.Connection.Submits

/-!
# What a step submits

The frames that a step of a run passes to `begin_write_frame`: that of the task that ran, the `channel.open` of a new
channel, a `channel.close_ok` for a channel that is gone, and nothing else.
-/

namespace Amqpp

/-- The frame of a posted `begin_write_frame` that runs. -/
def ConnectionEvent.frame? : ConnectionEvent → Option Frame
  | .beginWriteFrame fr => some fr
  | _ => none

namespace ConnectionManager

variable {Γ : Env}

/-- A call that submits nothing. -/
theorem submitted_of_calls {s t : ConnectionManager} (call : Call) (h : t.calls = s.calls ++ [call]) (hcall : call.submits = none) :
    t.submitted = s.submitted := by
  rw [submitted, h, List.filterMap_append, List.filterMap_cons_none hcall]
  exact List.append_nil _

/-! ## Frames that were received -/

/-- From `s` to `t` at most one frame was submitted, a `channel.close_ok` on a channel that is gone. -/
def Answers (Γ : Env) (s t : ConnectionManager) : Prop :=
  t.submitted = s.submitted ∨ ∃ channel : UInt16, t.submitted = s.submitted ++ [Γ.closeOkFrame channel] ∧
    channel.toNat < s.channels.length ∧ s.live channel.toNat = none

theorem Answers.of_eq {s t : ConnectionManager} (h : t.submitted = s.submitted) : Answers Γ s t := Or.inl h

/-- What the builder and the reads are does not matter. -/
theorem Answers.of_buffered {s s' t t' : ConnectionManager} (hs : s.Buffered s') (h : Answers Γ s' t) (ht : t.Buffered t') :
    Answers Γ s t' := by
  obtain ⟨builder, reads, rfl⟩ := hs
  obtain ⟨builder', reads', rfl⟩ := ht
  exact h

theorem submitted_handleDeadChannelFrame (Γ : Env) (fr : Frame) (s : ConnectionManager) :
    (handleDeadChannelFrame Γ fr s).Leaves fun t =>
      t.submitted = s.submitted ∨ t.submitted = s.submitted ++ [Γ.closeOkFrame fr.channel] := by
  by_cases hthrows : fr.type = .method ∧ ∃ e, Γ.spec.readFrame fr = .error e
  · obtain ⟨htype, e, hread⟩ := hthrows
    rw [DispatchAux.handleDeadChannelFrame_throws Γ htype hread]
    exact Or.inl (submitted_of_calls (.handleDeadChannelFrame fr) rfl rfl)
  · obtain ⟨t, ht, -, hcalls⟩ := DispatchAux.handleDeadChannelFrame_ok Γ (DispatchAux.exists_read hthrows) s
    have hsubmitted : t.submitted = s.submitted ++ (DispatchAux.answers Γ fr).filterMap Call.submits := by
      rw [submitted, hcalls, List.filterMap_append]
      rfl
    rw [ht]
    by_cases hclose : Γ.ReadsClose fr
    · rw [DispatchAux.answers_of_readsClose Γ hclose] at hsubmitted
      exact Or.inr hsubmitted
    · rw [DispatchAux.answers_of_not_readsClose Γ hclose, List.filterMap_nil, List.append_nil] at hsubmitted
      exact Or.inl hsubmitted

theorem answers_dispatchFrame (Γ : Env) (fr : Frame) (s : ConnectionManager) : (dispatchFrame Γ fr s).Leaves (Answers Γ s) := by
  by_cases hlt : fr.channel.toNat < s.channels.length
  · rw [DispatchAux.dispatchFrame_of_lt Γ hlt]
    rcases hl : s.live fr.channel.toNat with _ | h
    · rw [DispatchAux.dispatchToHandler_expired Γ hlt hl]
      refine (submitted_handleDeadChannelFrame Γ fr s).imp fun t ht => ?_
      exact ht.imp_right fun ht => ⟨fr.channel, ht, hlt, hl⟩
    · exact (DispatchAux.dispatchToHandler_live Γ hl).leaves.imp fun t ht => .of_eq (submitted_of_calls _ ht rfl)
  · -- Past the end nothing comes back but what the first action throws.
    have hge := Nat.le_of_not_lt hlt
    by_cases hthrows : fr.type = .method ∧ ∃ e, Γ.spec.readFrame fr = .error e
    · obtain ⟨htype, e, hread⟩ := hthrows
      rw [DispatchAux.dispatchFrame_throws Γ hge htype hread, DispatchAux.handleDeadChannelFrame_throws Γ htype hread]
      exact .of_eq (submitted_of_calls (.handleDeadChannelFrame fr) rfl rfl)
    · rw [DispatchAux.dispatchFrame_undefined Γ hge (DispatchAux.exists_read hthrows)]
      trivial

theorem answers_receiveFrame (Γ : Env) (s : ConnectionManager) : (receiveFrame Γ s).Leaves (Answers Γ s) := by
  unfold receiveFrame
  rcases hcreate : s.builder.createFrame Γ.constants with e | fr
  · simp only [Prog.bind_apply, Prog.get_apply, hcreate, Prog.lift_error]
    exact .of_eq rfl
  · have hd := answers_dispatchFrame Γ fr s
    simp only [Prog.bind_apply, Prog.get_apply, hcreate, Prog.lift_ok]
    cases hh : dispatchFrame Γ fr s with
    | ok a t =>
      rw [hh] at hd
      exact Answers.of_buffered (.refl s) hd ⟨_, _, rfl⟩
    | throws e t =>
      rw [hh] at hd
      exact hd
    | undefined => trivial

theorem answers_onDone (Γ : Env) (r : AsyncRead) (s : ConnectionManager) : (r.onDone Γ true s).Leaves (Answers Γ s) := by
  cases r with
  | header =>
    change (onFrameHeaderRead Γ true s).Leaves _
    unfold onFrameHeaderRead
    rcases hreq : s.builder.isBodyReadRequired Γ.constants with e | ⟨required, builder⟩
    · simp only [if_true, Prog.bind_apply, Prog.get_apply, hreq, Prog.lift_error]
      exact .of_eq rfl
    · have hs : s.Buffered { s with builder := builder } := ⟨_, _, rfl⟩
      simp only [if_true, Prog.bind_apply, Prog.get_apply, hreq, Prog.lift_ok, Prog.modify_apply, Prog.ite_apply]
      split
      · refine (buffered_beginBodyRead Γ _).imp fun t ht => ?_
        obtain ⟨builder', reads', rfl⟩ := ht
        exact .of_eq rfl
      · exact (answers_receiveFrame Γ _).imp fun t ht => .of_buffered hs ht (.refl t)
  | body n m => exact answers_receiveFrame Γ s

/-! ## Steps -/

/-- Only `start_open_channel` makes the table longer. -/
theorem Effect.length {m : ConnectionManager} {e : ConnectionEvent} {r : ConnectionRun} (h : Effect Γ m e r)
    (he : e ≠ .startOpenChannel) : r.manager.channels.length = m.channels.length := by
  cases h with
  | wrote _ h => rw [h.channels]
  | opening h => exact absurd rfl he
  | received h =>
    cases h with
    | buffered h =>
      obtain ⟨builder, reads, hr⟩ := h
      rw [hr]
    | dispatched hs h ht =>
      obtain ⟨builder, reads, rfl⟩ := hs
      obtain ⟨builder', reads', hr⟩ := ht
      rw [hr]
      cases h with
      | channel hc hd ht =>
        rw [ht]
        exact List.length_set
      | channel0 hl ht => rw [ht]; rfl
      | dead hl ht => exact congrArg List.length ht.channels
  | writeFailed h => exact h.length
  | readFailed h => exact h.length
  | expired hc hr =>
    rw [hr]
    exact List.length_set
  | requested hc hd hr =>
    rw [hr]
    exact List.length_set

/-- The frames that an event passes to `begin_write_frame`. -/
inductive Submission (Γ : Env) (m : ConnectionManager) : ConnectionEvent → ConnectionManager → List Frame → Prop where
  | task {fr : Frame} {t : ConnectionManager} (ht : t.channels = m.channels) : Submission Γ m (.beginWriteFrame fr) t [fr]
  | opened {fr : Frame} {t : ConnectionManager} (hn : m.channels.length ≤ 65535)
      (hfr : createFromMethod Γ.memory (UInt16.ofNat m.channels.length) (.create Γ.channel Γ.channelOpen) = .ok fr)
      (ht : t.channels = m.channels ++ [some (.channel (.create (UInt16.ofNat m.channels.length)))]) :
      Submission Γ m .startOpenChannel t [fr]
  | lost {t : ConnectionManager} (hn : m.channels.length ≤ 65535) (hopen : Γ.canOpen = false)
      (ht : t.channels = m.channels ++ [none]) : Submission Γ m .startOpenChannel t []
  | full {t : ConnectionManager} (ht : t.channels = m.channels) : Submission Γ m .startOpenChannel t []
  | answered {i : Nat} {bytes : List UInt8} {channel : UInt16} {t : ConnectionManager} (hlt : channel.toNat < m.channels.length)
      (hdead : m.live channel.toNat = none) (ht : t.channels.length = m.channels.length) :
      Submission Γ m (.readDone i (some bytes)) t [Γ.closeOkFrame channel]
  | nothing {e : ConnectionEvent} {t : ConnectionManager} (hframe : e.frame? = none)
      (ht : t.channels.length = m.channels.length) : Submission Γ m e t []

/-- A step submits one frame at most. -/
theorem Submission.length_le_one {m : ConnectionManager} {e : ConnectionEvent} {t : ConnectionManager} {frs : List Frame}
    (h : Submission Γ m e t frs) : frs.length ≤ 1 := by
  cases h <;> simp

/-- A new channel submits its `channel.open`. -/
theorem submitted_runStartOpenChannel {s : ConnectionManager} (h : s.channels.length ≤ 65535) {fr : Frame}
    (hframe : createFromMethod Γ.memory (UInt16.ofNat s.channels.length) (.create Γ.channel Γ.channelOpen) = .ok fr) :
    (runStartOpenChannel Γ s).Leaves fun t => t.submitted = s.submitted ++ [fr] := by
  have hpush := createNextChannel_of_le (s := { s with channelPromises := s.channelPromises ++ [.unset] }) h
  obtain ⟨t, ht, hcalls, -⟩ := DispatchAux.beginWriteFrame_calls Γ ⟨s.allocated, fr⟩
    { ({ s with channelPromises := s.channelPromises ++ [.unset] } : ConnectionManager).pushChannel with
      allocated := s.allocated + 1 }
  have hwrote := wrote_beginWriteFrame Γ ⟨s.allocated, fr⟩
    { ({ s with channelPromises := s.channelPromises ++ [.unset] } : ConnectionManager).pushChannel with
      allocated := s.allocated + 1 }
  rw [ht] at hwrote
  have hpromise := setChannelPromise_last (Promise.setValue .promiseAlreadySatisfied s.channels.length)
    hwrote.channelPromises rfl
  have hallocate : allocate fr ({ s with channelPromises := s.channelPromises ++ [.unset] } : ConnectionManager).pushChannel =
      .ok ⟨s.allocated, fr⟩ { ({ s with channelPromises := s.channelPromises ++ [.unset] } : ConnectionManager).pushChannel with
        allocated := s.allocated + 1 } := rfl
  unfold runStartOpenChannel startOpenChannel createFrame
  simp only [Prog.bind_apply, Prog.get_apply, Prog.modify_apply, Prog.tryCatch_apply, hpush, hframe, Prog.lift_ok, hallocate, ht,
    hpromise]
  change t.calls.filterMap Call.submits = _
  rw [hcalls, List.filterMap_append]
  rfl

/-- The handler of a posted `start_open_channel`, unless an exception leaves it. -/
theorem submission_runStartOpenChannel {m : ConnectionManager} {r : ConnectionRun}
    (h : ConnectionRun.afterHandler .startOpenChannel (runStartOpenChannel Γ m) = some r) (hescaped : r.escaped = none) :
    ∃ frs, r.manager.submitted = m.submitted ++ frs ∧ Submission Γ m .startOpenChannel r.manager frs := by
  have hopening := opening_runStartOpenChannel h
  cases hopening with
  | outOfChannels _ hr =>
    subst hr
    exact ⟨[], (List.append_nil _).symm, .full rfl⟩
  | lost hn hopen e hr =>
    rw [hr]
    exact ⟨[], (List.append_nil _).symm, .lost hn hopen rfl⟩
  | thrown _ _ he _ => exact absurd hescaped he
  | opened hn hopen ht hr =>
    have hok := isOk_createFromMethod Γ.memory 0 (UInt16.ofNat m.channels.length) (.create Γ.channel Γ.channelOpen)
    rcases hfr : createFromMethod Γ.memory (UInt16.ofNat m.channels.length) (.create Γ.channel Γ.channelOpen) with ex | fr
    · rw [hfr] at hok
      exact absurd (hok.symm.trans hopen) Bool.false_ne_true
    · refine ⟨[fr], ?_, .opened hn hfr (by rw [hr]; exact ht.channels)⟩
      exact ConnectionRun.afterHandler_leaves h (submitted_runStartOpenChannel hn hfr)

end ConnectionManager

namespace ConnectionRun

open ConnectionManager

/-- Every step of a run that goes on. -/
theorem submission_of_next {Γ : Env} {m : ConnectionManager} {e : ConnectionEvent} {r : ConnectionRun} (h : next Γ m e = some r)
    (hescaped : r.escaped = none) : ∃ frs, r.manager.submitted = m.submitted ++ frs ∧ Submission Γ m e r.manager frs := by
  have hlength := (effect_of_next h).length
  cases e with
  | beginWriteFrame fr =>
    obtain ⟨t, ht, hcalls, hchannels⟩ := DispatchAux.beginWriteFrame_calls Γ ⟨m.allocated, fr⟩ { m with allocated := m.allocated + 1 }
    have hrun : runBeginWriteFrame Γ fr m = .ok () t := ht
    rw [next, hrun] at h
    cases h
    refine ⟨[fr], ?_, .task hchannels⟩
    change t.calls.filterMap Call.submits = _
    rw [hcalls, List.filterMap_append]
    rfl
  | startOpenChannel => exact submission_runStartOpenChannel h hescaped
  | transmit i =>
    obtain ⟨t, ht, rfl⟩ := Option.map_eq_some_iff.mp h
    obtain ⟨w, -, hw⟩ := Option.bind_eq_some_iff.mp ht
    obtain ⟨b, -, hb⟩ := Option.bind_eq_some_iff.mp hw
    cases hb
    exact ⟨[], (List.append_nil _).symm, .nothing rfl (hlength (by simp))⟩
  | writeDone i ok =>
    simp only [next] at h
    split at h
    · split at h
      · cases h
      · cases ok with
        | true =>
          have hdone := afterHandler_leaves h (submitted_onWriteFrame Γ { m with writes := m.writes.eraseIdx i })
          exact ⟨[], hdone.trans (List.append_nil _).symm, .nothing rfl (hlength (by simp))⟩
        | false =>
          have hclose := afterHandler_leaves h (unsubmitted_onSocketClose { m with writes := m.writes.eraseIdx i })
          exact ⟨[], hclose.submitted.trans (List.append_nil _).symm, .nothing rfl (hlength (by simp))⟩
    · cases h
  | readDone i bytes =>
    simp only [next] at h
    split at h
    · split at h
      · cases h
      · rename_i read bytes _ _
        rcases afterHandler_leaves h (answers_onDone Γ read _) with hsame | ⟨channel, hanswer, hlt, hdead⟩
        · exact ⟨[], hsame.trans (List.append_nil _).symm, .nothing rfl (hlength (by simp))⟩
        · exact ⟨_, hanswer, .answered hlt hdead (hlength (by simp))⟩
    · rename_i read _
      have hclose := (unsubmitted_onSocketClose { m with reads := m.reads.eraseIdx i }).imp fun t ht => ht.submitted
      cases read with
      | header => exact ⟨[], (afterHandler_leaves h hclose).trans (List.append_nil _).symm, .nothing rfl (hlength (by simp))⟩
      | body n k => exact ⟨[], (afterHandler_leaves h hclose).trans (List.append_nil _).symm, .nothing rfl (hlength (by simp))⟩
    · cases h
  | destroyChannel i =>
    have hrelease := afterUser_leaves h (unsubmitted_releaseChannel Γ i m)
    exact ⟨[], hrelease.submitted.trans (List.append_nil _).symm, .nothing rfl (hlength (by simp))⟩
  | beginRpc i method classId methodId =>
    have hzoom : Prog.Within Unsubmitted (Prog.zoom (channelAt i) (setChannel i) (ChannelImpl.beginRpc Γ method classId methodId)) :=
      unsubmitted_zoom i _ (fun _ _ => rfl) fun _ _ => rfl
    exact ⟨[], (afterUser_leaves h (hzoom m)).submitted.trans (List.append_nil _).symm, .nothing rfl (hlength (by simp))⟩

end ConnectionRun

end Amqpp
