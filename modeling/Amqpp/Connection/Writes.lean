import Amqpp.Connection.Run

/-!
# Which steps start a write

The front of the queue is taken whenever a frame is pushed on an empty queue, so the queue is empty between any two steps,
and a completed write finds nothing to go on with. What is left to start a write is `begin_write_frame`, on an open
connection.
-/

namespace Amqpp

namespace ConnectionManager

open Prog (Within)

/-- From `s` to `t` the state is the same, an empty queue stays empty, and a write is started on an open connection only. -/
structure WritesWhenOpen (s t : ConnectionManager) : Prop where
  state : t.state = s.state
  queue : s.writeQueue = [] → t.writeQueue = []
  writes : s.writeQueue = [] → s.state ≠ .openState → t.writes = s.writes

/-- Nothing happens to the write path. -/
theorem WritesWhenOpen.of_eq {s t : ConnectionManager} (hstate : t.state = s.state) (hqueue : t.writeQueue = s.writeQueue)
    (hwrites : t.writes = s.writes) : WritesWhenOpen s t :=
  ⟨hstate, fun h => hqueue.trans h, fun _ _ => hwrites⟩

instance : Std.Refl WritesWhenOpen := ⟨fun _ => .of_eq rfl rfl rfl⟩

instance : IsTrans ConnectionManager WritesWhenOpen := by
  refine ⟨fun s t u h h' => ⟨h'.state.trans h.state, fun hs => h'.queue (h.queue hs), fun hs hstate => ?_⟩⟩
  exact (h'.writes (h.queue hs) (h.state ▸ hstate)).trans (h.writes hs hstate)

/-! ## Handler by handler -/

section handlers

variable (Γ : Env)

theorem writes_modify {f : ConnectionManager → ConnectionManager} (hstate : ∀ s, (f s).state = s.state)
    (hqueue : ∀ s, (f s).writeQueue = s.writeQueue) (hwrites : ∀ s, (f s).writes = s.writes) :
    Within WritesWhenOpen (modify f : Prog Exception ConnectionManager PUnit) :=
  Within.modify fun s => .of_eq (hstate s) (hqueue s) (hwrites s)

theorem writes_record (call : Call) : Within WritesWhenOpen (record call) :=
  writes_modify (fun _ => rfl) (fun _ => rfl) fun _ => rfl

theorem writes_allocate (fr : Frame) : Within WritesWhenOpen (allocate fr) := fun _ => .of_eq rfl rfl rfl

theorem writes_createFrame (channel : UInt16) (method : Method) : Within WritesWhenOpen (createFrame Γ channel method) :=
  (Within.lift _).bind fun _ => writes_allocate _

/-- What is done to a channel does not reach the write path. -/
theorem writes_zoom {α : Type} (i : Nat) {put : ChannelImpl → ConnectionManager → ConnectionManager}
    (x : Prog Exception ChannelImpl α) (hput : ∀ s c, WritesWhenOpen s (put c s)) : Within WritesWhenOpen (Prog.zoom (channelAt i) put x) := by
  have hany : Within (fun _ _ => True) x := fun c => by
    cases x c <;> trivial
  exact hany.zoom fun s _ d _ _ => hput s d

/-- A frame pushed on an empty queue is taken from it at once; on a closed connection nothing is pushed. -/
theorem writes_beginWriteFrame (fr : FramePtr) : Within WritesWhenOpen (beginWriteFrame Γ fr) := by
  intro s
  unfold beginWriteFrame
  by_cases hstate : s.state = .openState
  · by_cases hqueue : s.writeQueue = []
    · simp only [record, Prog.bind_apply, Prog.modify_apply, Prog.get_apply, hstate, hqueue, writeFront]
      exact ⟨hstate.symm, fun _ => rfl, fun _ hclosed => absurd hstate hclosed⟩
    · have hpos : 0 < s.writeQueue.length := List.length_pos_iff.mpr hqueue
      simp only [record, Prog.bind_apply, Prog.modify_apply, Prog.get_apply, hstate, hpos]
      exact ⟨hstate.symm, fun h => absurd h hqueue, fun h => absurd h hqueue⟩
  · simp only [record, Prog.bind_apply, Prog.modify_apply, Prog.get_apply, hstate]
    exact .of_eq rfl rfl rfl

theorem writes_runBeginWriteFrame (fr : Frame) : Within WritesWhenOpen (runBeginWriteFrame Γ fr) :=
  (writes_allocate fr).bind fun _ => writes_beginWriteFrame Γ _

/-- A completed write goes on with the front of a queue that is not empty. -/
theorem writes_onWriteFrame : Within WritesWhenOpen (onWriteFrame Γ true) := by
  intro s
  unfold onWriteFrame
  by_cases hqueue : s.writeQueue = []
  · simp only [if_true, Prog.bind_apply, Prog.get_apply, hqueue]
    exact .of_eq rfl rfl rfl
  · obtain ⟨fr, queue, hfr⟩ := List.exists_cons_of_ne_nil hqueue
    simp only [if_true, Prog.bind_apply, Prog.get_apply, hfr, List.length_cons, Nat.zero_lt_succ, writeFront]
    exact ⟨rfl, fun h => absurd h hqueue, fun h => absurd h hqueue⟩

theorem writes_handleDeadChannelFrame (fr : Frame) : Within WritesWhenOpen (handleDeadChannelFrame Γ fr) := by
  refine (writes_record _).bind fun _ => Within.ite ?_ (Within.pure _)
  refine (Within.lift _).bind fun m => Within.ite ?_ (Within.pure _)
  exact (writes_createFrame Γ _ _).bind fun _ => writes_beginWriteFrame Γ _

theorem writes_processFrame (i : Nat) (fr : Frame) : Within WritesWhenOpen (processFrame Γ i fr) := by
  refine (writes_record _).bind fun _ => Within.get.bind fun s => ?_
  split
  · exact Within.throw _
  · exact writes_zoom i _ fun _ _ => .of_eq rfl rfl rfl

theorem writes_dispatchFrame (fr : Frame) : Within WritesWhenOpen (dispatchFrame Γ fr) := by
  refine Within.bind (Within.get.bind fun s => Within.ite (writes_handleDeadChannelFrame Γ fr) (Within.pure _)) fun _ => ?_
  refine Within.get.bind fun s => ?_
  split
  · exact Within.undefined
  · exact writes_handleDeadChannelFrame Γ fr
  · refine Within.tryCatch (writes_processFrame Γ _ fr) fun e => ?_
    split
    · exact Within.pure _
    · exact Within.throw _

theorem writes_receiveFrame : Within WritesWhenOpen (receiveFrame Γ) := by
  refine Within.get.bind fun s => (Within.lift _).bind fun fr => (writes_dispatchFrame Γ fr).bind fun _ => ?_
  exact writes_modify (fun _ => rfl) (fun _ => rfl) fun _ => rfl

/-- A read that succeeded. -/
theorem writes_onDone (r : AsyncRead) : Within WritesWhenOpen (r.onDone Γ true) := by
  cases r with
  | header =>
    refine Within.get.bind fun s => (Within.lift _).bind fun _ => Within.bind ?_ fun _ => Within.ite ?_ (writes_receiveFrame Γ)
    · exact writes_modify (fun _ => rfl) (fun _ => rfl) fun _ => rfl
    · refine Within.get.bind fun s => (Within.lift _).bind fun _ => ?_
      exact writes_modify (fun _ => rfl) (fun _ => rfl) fun _ => rfl
  | body n m => exact writes_receiveFrame Γ

theorem writes_createNextChannel : Within WritesWhenOpen createNextChannel := by
  refine Within.get.bind fun s => Within.ite (Within.throw _) (Within.bind ?_ fun _ => Within.pure _)
  exact writes_modify (fun _ => rfl) (fun _ => rfl) fun _ => rfl

theorem writes_releaseChannel (i : Nat) : Within WritesWhenOpen (releaseChannel Γ i) :=
  writes_zoom i _ fun _ _ => .of_eq rfl rfl rfl

theorem writes_setChannelPromise (promise : Nat) (set : Promise Exception Nat → Except Exception (Promise Exception Nat)) :
    Within WritesWhenOpen (setChannelPromise promise set) := by
  refine Within.update fun s s' h => ?_
  split at h
  · obtain ⟨p, -, hp⟩ := Except.bind_eq_ok.mp h
    cases hp
    exact .of_eq rfl rfl rfl
  · cases h

theorem writes_runStartOpenChannel : Within WritesWhenOpen (runStartOpenChannel Γ) := by
  refine Within.get.bind fun s => Within.bind (writes_modify (fun _ => rfl) (fun _ => rfl) fun _ => rfl) fun _ => ?_
  refine Within.get.bind fun s => Within.tryCatch ?_ fun e => Within.ite ?_ (Within.throw _)
  · refine writes_createNextChannel.bind fun _ => (writes_createFrame Γ _ _).bind fun _ => ?_
    exact (writes_beginWriteFrame Γ _).bind fun _ => writes_setChannelPromise _ _
  · refine (writes_setChannelPromise _ _).bind fun _ => Within.get.bind fun s => ?_
    exact Within.ite (writes_releaseChannel Γ _) (Within.pure _)

theorem writes_closeEach (is : List Nat) : Within WritesWhenOpen (closeEach is) := by
  induction is with
  | nil => exact Within.pure _
  | cons i is ih =>
    refine Within.bind (Within.get.bind fun s => ?_) fun _ => ih
    split
    · exact (writes_record _).bind fun _ => Within.throw _
    · exact (writes_record _).bind fun _ => writes_zoom i _ fun _ _ => .of_eq rfl rfl rfl
    · exact Within.pure _

/-- `on_socket_close`, once the state is set. -/
theorem writes_onSocketClose (s : ConnectionManager) :
    (onSocketClose s).Leaves (WritesWhenOpen { s with state := .closedState }) := by
  have hclose : Within WritesWhenOpen closeChannels :=
    Within.get.bind fun s => Within.ite Within.undefined (writes_closeEach _)
  exact hclose { s with state := .closedState }

end handlers

/-! ## Steps -/

/-- The outstanding writes after an event, as long as none is started. -/
def outstanding (s : ConnectionManager) : ConnectionEvent → List AsyncWrite
  | .writeDone i _ => s.writes.eraseIdx i
  | .transmit i => s.writes.modify i fun w => { w with sent := w.sent + 1 }
  | _ => s.writes

/-- What a step does to the write path, when the queue is empty: it stays empty, an error closes the connection and nothing
else changes its state, and a write is started only if the connection is open then. -/
structure StepWrites (s : ConnectionManager) (e : ConnectionEvent) (t : ConnectionManager) : Prop where
  queue : t.writeQueue = []
  state : t.state = if e.isError then .closedState else s.state
  writes : t.state ≠ .openState → t.writes = s.outstanding e

/-- A handler that runs once its event has happened. -/
theorem StepWrites.of_writesWhenOpen {s s' t : ConnectionManager} {e : ConnectionEvent} (h : WritesWhenOpen s' t)
    (hqueue : s'.writeQueue = []) (hstate : s'.state = if e.isError then .closedState else s.state)
    (hwrites : s'.writes = s.outstanding e) : StepWrites s e t :=
  ⟨h.queue hqueue, h.state.trans hstate, fun ht => (h.writes hqueue (h.state ▸ ht)).trans hwrites⟩

end ConnectionManager

namespace ConnectionRun

open ConnectionManager

variable {Γ : Env}

theorem stepWrites_of_next {m : ConnectionManager} {e : ConnectionEvent} {r : ConnectionRun} (hqueue : m.writeQueue = [])
    (h : next Γ m e = some r) : StepWrites m e r.manager := by
  cases e with
  | beginWriteFrame fr => exact .of_writesWhenOpen (afterHandler_leaves h (writes_runBeginWriteFrame Γ fr m)) hqueue rfl rfl
  | startOpenChannel => exact .of_writesWhenOpen (afterHandler_leaves h (writes_runStartOpenChannel Γ m)) hqueue rfl rfl
  | transmit i =>
    obtain ⟨t, ht, rfl⟩ := Option.map_eq_some_iff.mp h
    obtain ⟨w, hw, ht⟩ := Option.bind_eq_some_iff.mp ht
    obtain ⟨b, -, ht⟩ := Option.bind_eq_some_iff.mp ht
    cases ht
    refine ⟨hqueue, rfl, fun _ => ?_⟩
    change m.writes.set i { w with sent := w.sent + 1 } = m.writes.modify i _
    rw [List.modify_eq_set_getElem?, hw]
    rfl
  | writeDone i ok =>
    simp only [next] at h
    split at h
    · split at h
      · cases h
      · cases ok with
        | true => exact .of_writesWhenOpen (afterHandler_leaves h (writes_onWriteFrame Γ _)) hqueue rfl rfl
        | false => exact .of_writesWhenOpen (afterHandler_leaves h (writes_onSocketClose _)) hqueue rfl rfl
    · cases h
  | readDone i bytes =>
    simp only [next] at h
    split at h
    · split at h
      · cases h
      · exact .of_writesWhenOpen (afterHandler_leaves h (writes_onDone Γ _ _)) hqueue rfl rfl
    · rename_i r _
      cases r with
      | header => exact .of_writesWhenOpen (afterHandler_leaves h (writes_onSocketClose _)) hqueue rfl rfl
      | body n k => exact .of_writesWhenOpen (afterHandler_leaves h (writes_onSocketClose _)) hqueue rfl rfl
    · cases h
  | destroyChannel i => exact .of_writesWhenOpen (afterUser_leaves h (writes_releaseChannel Γ i m)) hqueue rfl rfl
  | beginRpc i method classId methodId =>
    have hzoom : Prog.Within WritesWhenOpen
        (Prog.zoom (channelAt i) (setChannel i) (ChannelImpl.beginRpc Γ method classId methodId)) :=
      writes_zoom i _ fun _ _ => .of_eq rfl rfl rfl
    exact .of_writesWhenOpen (afterUser_leaves h (hzoom m)) hqueue rfl rfl

end ConnectionRun

end Amqpp
