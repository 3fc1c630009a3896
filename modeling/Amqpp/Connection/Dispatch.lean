import Amqpp.Connection.Steps

/-!
# Dispatching a frame

What `dispatch_frame` and `handle_dead_channel_frame` come to: a call on the live handler of the channel, or an answer to a
`channel.close`.
-/

namespace Amqpp

/-- The call is one of the two actions of `dispatch_frame`. -/
def Call.isDispatch : Call → Bool
  | processFrame _ _ | handleDeadChannelFrame _ => true
  | beginWriteFrame _ | closeAsync _ => false

namespace ConnectionManager

/-- The actions of `dispatch_frame` so far. -/
def dispatches (s : ConnectionManager) : List Call := s.calls.filter Call.isDispatch

/-- The call of `handle_dead_channel_frame` is noted. -/
def noteDead (fr : Frame) (s : ConnectionManager) : ConnectionManager :=
  { s with calls := s.calls ++ [.handleDeadChannelFrame fr] }

end ConnectionManager

/-- The frame is a method frame, and is read as a `channel.close`. -/
def Env.ReadsClose (Γ : Env) (fr : Frame) : Prop :=
  fr.type = .method ∧
    ∃ m, Γ.spec.readFrame fr = .ok m ∧ m.classId = Γ.channel.index ∧ m.desc.index = Γ.channelClose.index

namespace DispatchAux

open ConnectionManager

variable (Γ : Env)

/-- `begin_write_frame` returns, and is one call. -/
theorem beginWriteFrame_calls (fr : FramePtr) (s : ConnectionManager) :
    ∃ t, beginWriteFrame Γ fr s = .ok () t ∧ t.calls = s.calls ++ [.beginWriteFrame fr.frame] ∧ t.channels = s.channels := by
  unfold beginWriteFrame
  by_cases hstate : s.state = .openState
  · rcases hqueue : s.writeQueue with _ | ⟨front, queue⟩
    · simp [record, hstate, hqueue, writeFront]
    · simp [record, hstate, hqueue]
  · simp [record, hstate]

/-- The answer to a frame for a dead channel: a `channel.close_ok` for a `channel.close`. -/
def answers (fr : Frame) : List Call :=
  match Γ.spec.readFrame fr with
  | .ok m =>
    if fr.type = .method ∧ m.classId = Γ.channel.index ∧ m.desc.index = Γ.channelClose.index then
      [.beginWriteFrame (Γ.closeOkFrame fr.channel)]
    else []
  | .error _ => []

/-- No answer is an action of `dispatch_frame`. -/
theorem filter_answers (fr : Frame) : (answers Γ fr).filter Call.isDispatch = [] := by
  unfold answers
  split
  · split
    · rfl
    · rfl
  · rfl

/-- `handle_dead_channel_frame` on a method frame that cannot be read. -/
theorem handleDeadChannelFrame_throws {fr : Frame} {e : Exception} (htype : fr.type = .method)
    (hread : Γ.spec.readFrame fr = .error e) (s : ConnectionManager) :
    handleDeadChannelFrame Γ fr s = .throws e (s.noteDead fr) := by
  unfold handleDeadChannelFrame noteDead
  simp [record, htype, hread]

/-- `handle_dead_channel_frame` on a `channel.close`. -/
theorem handleDeadChannelFrame_close {fr : Frame} (h : Γ.ReadsClose fr) (s : ConnectionManager) :
    handleDeadChannelFrame Γ fr s =
      beginWriteFrame Γ ⟨s.allocated, Γ.closeOkFrame fr.channel⟩ { s.noteDead fr with allocated := s.allocated + 1 } := by
  obtain ⟨htype, m, hread, hclass, hmethod⟩ := h
  unfold handleDeadChannelFrame noteDead
  simp [record, htype, hread, hclass, hmethod, createFrame, Γ.createFromMethod_closeOk, allocate]

/-- `handle_dead_channel_frame` on any other frame, if it can be read. -/
theorem handleDeadChannelFrame_drop {fr : Frame} (h : ¬Γ.ReadsClose fr) (hread : fr.type = .method → ∃ m, Γ.spec.readFrame fr = .ok m)
    (s : ConnectionManager) : handleDeadChannelFrame Γ fr s = .ok () (s.noteDead fr) := by
  unfold handleDeadChannelFrame noteDead
  by_cases htype : fr.type = .method
  · obtain ⟨m, hm⟩ := hread htype
    have hids : ¬(m.classId = Γ.channel.index ∧ m.desc.index = Γ.channelClose.index) := fun hids => h ⟨htype, m, hm, hids⟩
    simp [record, htype, hm, hids]
  · simp [record, htype]

/-- The answer is given to a `channel.close` only. -/
theorem answers_of_readsClose {fr : Frame} (h : Γ.ReadsClose fr) :
    answers Γ fr = [.beginWriteFrame (Γ.closeOkFrame fr.channel)] := by
  obtain ⟨htype, m, hread, hids⟩ := h
  unfold answers
  simp only [hread, htype, hids, and_self, if_true]

theorem answers_of_not_readsClose {fr : Frame} (h : ¬Γ.ReadsClose fr) : answers Γ fr = [] := by
  unfold answers
  split
  · rename_i m hread
    exact if_neg fun hclose => h ⟨hclose.1, m, hread, hclose.2⟩
  · rfl

/-- `handle_dead_channel_frame` on a frame that can be read: it returns, and its calls are the answer. -/
theorem handleDeadChannelFrame_ok {fr : Frame} (h : fr.type = .method → ∃ m, Γ.spec.readFrame fr = .ok m) (s : ConnectionManager) :
    ∃ t, handleDeadChannelFrame Γ fr s = .ok () t ∧ t.channels = s.channels ∧
      t.calls = s.calls ++ .handleDeadChannelFrame fr :: answers Γ fr := by
  by_cases hclose : Γ.ReadsClose fr
  · obtain ⟨t, ht, hcalls, hchannels⟩ := beginWriteFrame_calls Γ ⟨s.allocated, Γ.closeOkFrame fr.channel⟩
      { s.noteDead fr with allocated := s.allocated + 1 }
    refine ⟨t, (handleDeadChannelFrame_close Γ hclose s).trans ht, hchannels, ?_⟩
    rw [hcalls, answers_of_readsClose Γ hclose]
    exact List.append_assoc _ _ _
  · refine ⟨_, handleDeadChannelFrame_drop Γ hclose h s, rfl, ?_⟩
    rw [answers_of_not_readsClose Γ hclose]
    rfl

/-- `process_frame` on a live handler is one call. -/
theorem processFrame_ends (fr : Frame) {i : Nat} {s : ConnectionManager} {h : FrameHandler} (hl : s.live i = some h) :
    (processFrame Γ i fr s).Ends fun t => t.calls = s.calls ++ [.processFrame i fr] := by
  have hl' := live_eq_some.mp hl
  unfold processFrame
  cases h with
  | channel0 => simp [record, hl']
  | channel c =>
    have hat : ({ s with calls := s.calls ++ [.processFrame i fr] } : ConnectionManager).channelAt i = some c :=
      channelAt_eq_some.mpr hl
    simp only [record, Prog.bind_apply, Prog.modify_apply, Prog.get_apply, hl', Prog.zoom, hat]
    cases hc : ChannelImpl.processFrame Γ fr c with
    | ok a d => rfl
    | throws e d => rfl
    | undefined => exact absurd hc (ChannelImpl.defined_processFrame Γ fr c)

/-- What dispatching to a dead channel asks of the state after it. -/
def Dropped (fr : Frame) (s t : ConnectionManager) : Prop :=
  t.dispatches = s.dispatches ++ [.handleDeadChannelFrame fr] ∧
    ∀ m, fr.type = .method → Γ.spec.readFrame fr = .ok m → m.classId = Γ.channel.index →
      m.desc.index = Γ.channelClose.index → t.submitted = s.submitted ++ [Γ.closeOkFrame fr.channel]

theorem exists_read {Γ : Env} {fr : Frame} (h : ¬(fr.type = .method ∧ ∃ e, Γ.spec.readFrame fr = .error e))
    (htype : fr.type = .method) : ∃ m, Γ.spec.readFrame fr = .ok m := by
  rcases hread : Γ.spec.readFrame fr with e | m
  · exact absurd ⟨htype, e, hread⟩ h
  · exact ⟨m, rfl⟩

/-- `handle_dead_channel_frame` does what is asked, however it ends. -/
theorem handleDeadChannelFrame_ends (fr : Frame) (s : ConnectionManager) :
    (handleDeadChannelFrame Γ fr s).Ends (Dropped Γ fr s) := by
  by_cases hthrows : fr.type = .method ∧ ∃ e, Γ.spec.readFrame fr = .error e
  · obtain ⟨htype, e, hread⟩ := hthrows
    rw [handleDeadChannelFrame_throws Γ htype hread]
    refine ⟨List.filter_append s.calls [.handleDeadChannelFrame fr], fun m _ hm => ?_⟩
    rw [hread] at hm
    cases hm
  · obtain ⟨t, ht, -, hcalls⟩ := handleDeadChannelFrame_ok Γ (exists_read hthrows) s
    rw [ht]
    constructor
    · unfold dispatches
      rw [hcalls, List.filter_append, List.filter_cons_of_pos rfl, filter_answers]
    · intro m htype hm hclass hmethod
      have hanswers := answers_of_readsClose Γ ⟨htype, m, hm, hclass, hmethod⟩
      unfold submitted
      rw [hcalls, hanswers, List.filterMap_append]
      rfl

/-- A live handler gets the frame, and nobody else. -/
theorem dispatchToHandler_live {fr : Frame} {s : ConnectionManager} {h : FrameHandler} (hl : s.live fr.channel.toNat = some h) :
    (dispatchToHandler Γ fr s).Ends fun t => t.calls = s.calls ++ [.processFrame fr.channel.toNat fr] := by
  have hends := processFrame_ends Γ fr hl
  unfold dispatchToHandler
  simp only [Prog.bind_apply, Prog.get_apply, live_eq_some.mp hl, Prog.tryCatch_apply]
  cases hp : processFrame Γ fr.channel.toNat fr s with
  | ok a t =>
    rw [hp] at hends
    exact hends
  | throws e t =>
    rw [hp] at hends
    cases e with
    | connectionException => exact hends
    | _ => exact hends
  | undefined =>
    rw [hp] at hends
    exact hends

/-- A channel number in range: the first `if` is passed over. -/
theorem dispatchFrame_of_lt {fr : Frame} {s : ConnectionManager} (h : fr.channel.toNat < s.channels.length) :
    dispatchFrame Γ fr s = dispatchToHandler Γ fr s := by
  unfold dispatchFrame dispatchUnknown
  simp [Nat.not_le.mpr h]

/-- An expired handler: the frame is dropped. -/
theorem dispatchToHandler_expired {fr : Frame} {s : ConnectionManager} (h : fr.channel.toNat < s.channels.length)
    (hl : s.live fr.channel.toNat = none) : dispatchToHandler Γ fr s = handleDeadChannelFrame Γ fr s := by
  have hget : s.channels[fr.channel.toNat]? = some none := by
    obtain ⟨x, hx⟩ : ∃ x, s.channels[fr.channel.toNat]? = some x := ⟨_, List.getElem?_eq_getElem h⟩
    rcases x with _ | fh
    · exact hx
    · rw [live_eq_some.mpr hx] at hl
      cases hl
  unfold dispatchToHandler
  simp [hget]

/-- A channel number past the end, and a frame that the first action throws on. -/
theorem dispatchFrame_throws {fr : Frame} {s : ConnectionManager} {e : Exception} (h : s.channels.length ≤ fr.channel.toNat)
    (htype : fr.type = .method) (hread : Γ.spec.readFrame fr = .error e) :
    dispatchFrame Γ fr s = handleDeadChannelFrame Γ fr s := by
  unfold dispatchFrame dispatchUnknown
  simp [h, handleDeadChannelFrame_throws Γ htype hread]

/-- A channel number past the end, and a frame that the first action returns from: the vector is read past its end. -/
theorem dispatchFrame_undefined {fr : Frame} {s : ConnectionManager} (h : s.channels.length ≤ fr.channel.toNat)
    (hread : fr.type = .method → ∃ m, Γ.spec.readFrame fr = .ok m) : dispatchFrame Γ fr s = .undefined := by
  obtain ⟨t, ht, hchannels, -⟩ := handleDeadChannelFrame_ok Γ hread s
  have hout : t.channels[fr.channel.toNat]? = none := by
    rw [hchannels]
    exact List.getElem?_eq_none h
  unfold dispatchFrame dispatchUnknown dispatchToHandler
  simp [h, ht, hout, Prog.undefined_apply]

end DispatchAux

end Amqpp
