import Amqpp.Connection.Dispatch

/-!
# What a handler submits

The part of the manager that the write path looks at, and `submit`, what `begin_write_frame` makes of it. Whatever a handler
does, it changes that part by the frames it submits, one after the other, and by nothing else.
-/

namespace Amqpp

/-- What the write path looks at. -/
structure WriteSide where
  state : ConnectionState
  writeQueue : List FramePtr
  writer : FrameWriter
  currentWriteFrame : Option FramePtr
  writes : List AsyncWrite
  socket : List UInt8

/-- A frame is passed to `begin_write_frame`. -/
def WriteSide.submit (K : Constants) (w : WriteSide) (fr : FramePtr) : WriteSide :=
  if w.state ≠ .openState then w
  else if w.writeQueue = [] then
    { w with writer := ⟨fr.frame.header K⟩, currentWriteFrame := some fr, writes := w.writes ++ [⟨fr, 0⟩] }
  else { w with writeQueue := w.writeQueue ++ [fr] }

namespace ConnectionManager

open Prog (Within)

/-- The write side of a manager. -/
def writeSide (s : ConnectionManager) : WriteSide where
  state := s.state
  writeQueue := s.writeQueue
  writer := s.writer
  currentWriteFrame := s.currentWriteFrame
  writes := s.writes
  socket := s.socket

/-- From `s` to `t` no frame was submitted, and nothing happened to the write side. -/
structure Unsubmitted (s t : ConnectionManager) : Prop where
  submitted : t.submitted = s.submitted
  side : t.writeSide = s.writeSide

instance : Std.Refl Unsubmitted := ⟨fun _ => ⟨rfl, rfl⟩⟩

instance : IsTrans ConnectionManager Unsubmitted := ⟨fun _ _ _ h h' => ⟨h'.1.trans h.1, h'.2.trans h.2⟩⟩

/-- From `s` to `t` some frames were submitted, and nothing else happened to the write side. -/
def Submits (K : Constants) (s t : ConnectionManager) : Prop :=
  ∃ frs : List FramePtr, t.submitted = s.submitted ++ frs.map (·.frame) ∧ t.writeSide = frs.foldl (·.submit K) s.writeSide

variable {K : Constants}

theorem Unsubmitted.submits {s t : ConnectionManager} (h : Unsubmitted s t) : Submits K s t :=
  ⟨[], by rw [h.submitted, List.map_nil, List.append_nil], h.side⟩

instance : Std.Refl (Submits K) := ⟨fun s => (refl_of Unsubmitted s).submits⟩

instance : IsTrans ConnectionManager (Submits K) := by
  refine ⟨fun s t u h h' => ?_⟩
  obtain ⟨frs, hsubmitted, hside⟩ := h
  obtain ⟨frs', hsubmitted', hside'⟩ := h'
  refine ⟨frs ++ frs', ?_, ?_⟩
  · rw [hsubmitted', hsubmitted, List.map_append, List.append_assoc]
  · rw [hside', hside, List.foldl_append]

/-! ## Handler by handler -/

theorem unsubmitted_modify {f : ConnectionManager → ConnectionManager} (hcalls : ∀ s, (f s).calls = s.calls)
    (hside : ∀ s, (f s).writeSide = s.writeSide) : Within Unsubmitted (modify f : Prog Exception ConnectionManager PUnit) :=
  Within.modify fun s => ⟨by rw [submitted, hcalls, submitted], hside s⟩

/-- A call that submits nothing. -/
theorem unsubmitted_record {call : Call} (h : call.submits = none) : Within Unsubmitted (record call) := by
  refine Within.modify fun s => ⟨?_, rfl⟩
  unfold submitted
  rw [List.filterMap_append, List.filterMap_cons_none h]
  exact List.append_nil _

/-- What is done to a channel does not reach the write side. -/
theorem unsubmitted_zoom {α : Type} (i : Nat) {put : ChannelImpl → ConnectionManager → ConnectionManager}
    (x : Prog Exception ChannelImpl α) (hcalls : ∀ c s, (put c s).calls = s.calls)
    (hside : ∀ c s, (put c s).writeSide = s.writeSide) : Within Unsubmitted (Prog.zoom (channelAt i) put x) := by
  have hany : Within (fun _ _ => True) x := fun c => by
    cases x c <;> trivial
  exact hany.zoom fun s _ d _ _ => ⟨by rw [submitted, hcalls, submitted], hside d s⟩

theorem unsubmitted_allocate (fr : Frame) : Within Unsubmitted (allocate fr) := fun _ => ⟨rfl, rfl⟩

/-- A program that submits nothing. -/
theorem submits_of {α : Type} {x : Prog Exception ConnectionManager α} (h : Within Unsubmitted x) : Within (Submits K) x :=
  h.mono fun _ _ => Unsubmitted.submits

variable (Γ : Env)

/-- `begin_write_frame` is one submission. -/
theorem submits_beginWriteFrame (fr : FramePtr) : Within (Submits Γ.constants) (beginWriteFrame Γ fr) := by
  intro s
  have hsubmitted : (s.calls ++ [Call.beginWriteFrame fr.frame]).filterMap Call.submits = s.submitted ++ [fr.frame] :=
    List.filterMap_append
  unfold beginWriteFrame
  by_cases hstate : s.state = .openState
  · by_cases hqueue : s.writeQueue = []
    · simp only [record, Prog.bind_apply, Prog.modify_apply, Prog.get_apply, hstate, hqueue, writeFront]
      refine ⟨[fr], hsubmitted, ?_⟩
      simp [writeSide, WriteSide.submit, hstate, hqueue, FrameWriter.getSequence]
    · have hpos : 0 < s.writeQueue.length := List.length_pos_iff.mpr hqueue
      simp only [record, Prog.bind_apply, Prog.modify_apply, Prog.get_apply, hstate, hpos]
      refine ⟨[fr], hsubmitted, ?_⟩
      simp [writeSide, WriteSide.submit, hstate, hqueue]
  · simp only [record, Prog.bind_apply, Prog.modify_apply, Prog.get_apply, hstate]
    refine ⟨[fr], hsubmitted, ?_⟩
    simp [writeSide, WriteSide.submit, hstate]

theorem submits_runBeginWriteFrame (fr : Frame) : Within (Submits Γ.constants) (runBeginWriteFrame Γ fr) :=
  (submits_of (unsubmitted_allocate fr)).bind fun _ => submits_beginWriteFrame Γ _

theorem submits_createFrame (channel : UInt16) (method : Method) : Within (Submits K) (createFrame Γ channel method) :=
  (Within.lift _).bind fun _ => submits_of (unsubmitted_allocate _)

theorem submits_handleDeadChannelFrame (fr : Frame) : Within (Submits Γ.constants) (handleDeadChannelFrame Γ fr) := by
  refine (submits_of (unsubmitted_record rfl)).bind fun _ => Within.ite ?_ (Within.pure _)
  refine (Within.lift _).bind fun m => Within.ite ?_ (Within.pure _)
  exact (submits_createFrame Γ _ _).bind fun _ => submits_beginWriteFrame Γ _

theorem unsubmitted_processFrame (i : Nat) (fr : Frame) : Within Unsubmitted (processFrame Γ i fr) := by
  refine (unsubmitted_record rfl).bind fun _ => Within.get.bind fun s => ?_
  split
  · exact Within.throw _
  · exact unsubmitted_zoom i _ (fun _ _ => rfl) fun _ _ => rfl

theorem submits_dispatchFrame (fr : Frame) : Within (Submits Γ.constants) (dispatchFrame Γ fr) := by
  refine Within.bind (Within.get.bind fun s => Within.ite (submits_handleDeadChannelFrame Γ fr) (Within.pure _)) fun _ => ?_
  refine Within.get.bind fun s => ?_
  split
  · exact Within.undefined
  · exact submits_handleDeadChannelFrame Γ fr
  · refine Within.tryCatch (submits_of (unsubmitted_processFrame Γ _ fr)) fun e => ?_
    split
    · exact Within.pure _
    · exact Within.throw _

theorem submits_receiveFrame : Within (Submits Γ.constants) (receiveFrame Γ) := by
  refine Within.get.bind fun s => (Within.lift _).bind fun fr => (submits_dispatchFrame Γ fr).bind fun _ => ?_
  exact submits_of (unsubmitted_modify (fun _ => rfl) fun _ => rfl)

/-- A read that succeeded. -/
theorem submits_onDone (r : AsyncRead) : Within (Submits Γ.constants) (r.onDone Γ true) := by
  cases r with
  | header =>
    refine Within.get.bind fun s => (Within.lift _).bind fun _ => Within.bind ?_ fun _ => Within.ite ?_ (submits_receiveFrame Γ)
    · exact submits_of (unsubmitted_modify (fun _ => rfl) fun _ => rfl)
    · refine Within.get.bind fun s => (Within.lift _).bind fun _ => ?_
      exact submits_of (unsubmitted_modify (fun _ => rfl) fun _ => rfl)
  | body n m => exact submits_receiveFrame Γ

theorem unsubmitted_setChannelPromise (promise : Nat) (set : Promise Exception Nat → Except Exception (Promise Exception Nat)) :
    Within Unsubmitted (setChannelPromise promise set) := by
  refine Within.update fun s s' h => ?_
  split at h
  · obtain ⟨p, -, hp⟩ := Except.bind_eq_ok.mp h
    cases hp
    exact ⟨rfl, rfl⟩
  · cases h

theorem unsubmitted_releaseChannel (i : Nat) : Within Unsubmitted (releaseChannel Γ i) :=
  unsubmitted_zoom i _ (fun _ _ => rfl) fun _ _ => rfl

theorem submits_runStartOpenChannel : Within (Submits Γ.constants) (runStartOpenChannel Γ) := by
  refine Within.get.bind fun s => Within.bind (submits_of (unsubmitted_modify (fun _ => rfl) fun _ => rfl)) fun _ => ?_
  refine Within.get.bind fun s => Within.tryCatch ?_ fun e => Within.ite ?_ (Within.throw _)
  · refine Within.bind (Within.get.bind fun s => Within.ite (Within.throw _) (Within.bind ?_ fun _ => Within.pure _)) fun _ => ?_
    · exact submits_of (unsubmitted_modify (fun _ => rfl) fun _ => rfl)
    · refine (submits_createFrame Γ _ _).bind fun _ => (submits_beginWriteFrame Γ _).bind fun _ => ?_
      exact submits_of (unsubmitted_setChannelPromise _ _)
  · refine (submits_of (unsubmitted_setChannelPromise _ _)).bind fun _ => Within.get.bind fun s => Within.ite ?_ (Within.pure _)
    exact submits_of (unsubmitted_releaseChannel Γ _)

/-- The calls of `close_async` submit nothing. -/
theorem unsubmitted_closeEach (is : List Nat) : Within Unsubmitted (closeEach is) := by
  induction is with
  | nil => exact Within.pure _
  | cons i is ih =>
    refine Within.bind (Within.get.bind fun s => ?_) fun _ => ih
    split
    · exact (unsubmitted_record rfl).bind fun _ => Within.throw _
    · exact (unsubmitted_record rfl).bind fun _ => unsubmitted_zoom i _ (fun _ _ => rfl) fun _ _ => rfl
    · exact Within.pure _

/-- `on_socket_close`, once the state is set. -/
theorem unsubmitted_onSocketClose (s : ConnectionManager) :
    (onSocketClose s).Leaves (Unsubmitted { s with state := .closedState }) := by
  have hclose : Within Unsubmitted closeChannels :=
    Within.get.bind fun s => Within.ite Within.undefined (unsubmitted_closeEach _)
  exact hclose { s with state := .closedState }

/-- A write that succeeded takes the next frame from the queue: that one was submitted before. -/
theorem submitted_onWriteFrame (Γ : Env) (s : ConnectionManager) :
    (onWriteFrame Γ true s).Leaves fun t => t.submitted = s.submitted := by
  unfold onWriteFrame
  rcases hqueue : s.writeQueue with _ | ⟨front, queue⟩
  · simp [hqueue, submitted]
  · simp [hqueue, writeFront, submitted]

end ConnectionManager

/-! ## Steps -/

namespace ConnectionManager

/-- What a step does to the write side, when the queue is empty: the socket takes a byte, a write completes or fails, the
connection is closed, or else frames are submitted. -/
inductive WriteStep (Γ : Env) (s : ConnectionManager) : ConnectionEvent → ConnectionManager → Prop where
  | submits {e : ConnectionEvent} {t : ConnectionManager} (h : Submits Γ.constants s t) : WriteStep Γ s e t
  | transmit {i : Nat} {t : ConnectionManager} (h : s.transmit Γ.constants i = some t) : WriteStep Γ s (.transmit i) t
  | done {i : Nat} {w : AsyncWrite} {t : ConnectionManager} (hw : s.writes[i]? = some w) (hsent : w.sent = w.size)
      (ht : t = { s with writes := s.writes.eraseIdx i, currentWriteFrame := none }) : WriteStep Γ s (.writeDone i true) t
  | failed {i : Nat} {w : AsyncWrite} {t : ConnectionManager} (hw : s.writes[i]? = some w)
      (h : Unsubmitted { s with writes := s.writes.eraseIdx i, state := .closedState } t) : WriteStep Γ s (.writeDone i false) t
  | closed {i : Nat} {t : ConnectionManager} (h : Unsubmitted { s with state := .closedState } t) :
      WriteStep Γ s (.readDone i none) t

end ConnectionManager

namespace ConnectionRun

open ConnectionManager

theorem writeStep_of_next {Γ : Env} {m : ConnectionManager} {e : ConnectionEvent} {r : ConnectionRun} (hqueue : m.writeQueue = [])
    (h : next Γ m e = some r) : WriteStep Γ m e r.manager := by
  cases e with
  | beginWriteFrame fr => exact .submits (afterHandler_leaves h (submits_runBeginWriteFrame Γ fr m))
  | startOpenChannel => exact .submits (afterHandler_leaves h (submits_runStartOpenChannel Γ m))
  | transmit i =>
    obtain ⟨t, ht, rfl⟩ := Option.map_eq_some_iff.mp h
    exact .transmit ht
  | writeDone i ok =>
    simp only [next] at h
    split at h
    · rename_i w hw
      split at h
      · cases h
      · rename_i hsize
        cases ok with
        | true =>
          have hsent : w.sent = w.size := not_not.mp fun hne => hsize ⟨rfl, hne⟩
          have hdone : onWriteFrame Γ true { m with writes := m.writes.eraseIdx i } =
              .ok () { m with writes := m.writes.eraseIdx i, currentWriteFrame := none } := by
            unfold onWriteFrame
            simp [hqueue]
          rw [hdone] at h
          cases h
          exact .done hw hsent rfl
        | false => exact .failed hw (afterHandler_leaves h (unsubmitted_onSocketClose _))
    · cases h
  | readDone i bytes =>
    simp only [next] at h
    split at h
    · split at h
      · cases h
      · exact .submits (afterHandler_leaves h (submits_onDone Γ _ _))
    · rename_i r _
      have hclose : (onSocketClose { m with reads := m.reads.eraseIdx i }).Leaves (Unsubmitted { m with state := .closedState }) :=
        (unsubmitted_onSocketClose { m with reads := m.reads.eraseIdx i }).imp fun t ht => ⟨ht.submitted, ht.side⟩
      cases r with
      | header => exact .closed (afterHandler_leaves h hclose)
      | body n k => exact .closed (afterHandler_leaves h hclose)
    · cases h
  | destroyChannel i => exact .submits (afterUser_leaves h (unsubmitted_releaseChannel Γ i m)).submits
  | beginRpc i method classId methodId =>
    have hzoom : Prog.Within Unsubmitted (Prog.zoom (channelAt i) (setChannel i) (ChannelImpl.beginRpc Γ method classId methodId)) :=
      unsubmitted_zoom i _ (fun _ _ => rfl) fun _ _ => rfl
    exact .submits (afterUser_leaves h (hzoom m)).submits

end ConnectionRun

end Amqpp
