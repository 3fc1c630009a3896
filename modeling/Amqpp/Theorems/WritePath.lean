import Amqpp.Connection.Closing

/-!
# The write path

`begin_write_frame` takes a queue that is not empty for a write in flight, but the frame in flight has left the queue. So
the second of two frames starts a write of its own over the same header buffer. As long as frames are submitted one after
the other was written, the bytes on the socket are those of the frames, in their order.
-/

namespace Amqpp

/-- The steps of the write path: frames are submitted, the socket takes bytes, writes complete without an error. -/
def ConnectionEvent.isWritePath : ConnectionEvent → Bool
  | .beginWriteFrame _ | .transmit _ => true
  | .writeDone _ ok => ok
  | _ => false

/-- The write path of the connection manager. -/
def writeMachine (Γ : Env) : Machine ConnectionRun ConnectionEvent := (connectionMachine Γ).restrict ConnectionEvent.isWritePath

/-- The bytes that a write has still to send. -/
def AsyncWrite.rest (K : Constants) (w : AsyncWrite) : List UInt8 := (w.frame.frame.sequence K).drop w.sent

/-- At most one write is in flight. Its frame is the current one, and the writer holds that frame's header. The bytes on the
socket, those that the write has still to send and those of the frames in the queue are the frames that were submitted, in
order. -/
structure ConnectionManager.WritesInOrder (K : Constants) (s : ConnectionManager) : Prop where
  one : s.writes.length ≤ 1
  current : ∀ w ∈ s.writes, s.currentWriteFrame = some w.frame ∧ s.writer.header = w.frame.frame.header K
  bytes : s.socket ++ (s.writes.flatMap (·.rest K) ++ s.writeQueue.flatMap (·.frame.sequence K)) =
    s.submitted.flatMap (·.sequence K)

/-- A frame is submitted when no write is in flight. -/
def SubmittedAlone (r : ConnectionRun) (e : ConnectionEvent) : Prop :=
  (∃ fr, e = .beginWriteFrame fr) → r.manager.writes = []

namespace WritePathAux

open ConnectionManager

variable {Γ : Env}

/-- What a run of the write path keeps as long as frames are submitted alone. -/
structure Idle (Γ : Env) (r : ConnectionRun) : Prop where
  state : r.manager.state = .openState
  queue : r.manager.writeQueue = []
  inOrder : r.manager.WritesInOrder Γ.constants

theorem idle_init : Idle Γ (writeMachine Γ).init := ⟨rfl, rfl, Nat.zero_le 1, nofun, rfl⟩

/-- On an empty queue a submitted frame starts its write at once, whatever is in flight. -/
theorem runBeginWriteFrame_of_nil {s : ConnectionManager} (hstate : s.state = .openState) (hqueue : s.writeQueue = [])
    (fr : Frame) : runBeginWriteFrame Γ fr s = .ok ()
      { s with
        calls := s.calls ++ [.beginWriteFrame fr]
        allocated := s.allocated + 1
        writer := ⟨fr.header Γ.constants⟩
        currentWriteFrame := some ⟨s.allocated, fr⟩
        writes := s.writes ++ [⟨⟨s.allocated, fr⟩, 0⟩] } := by
  unfold runBeginWriteFrame beginWriteFrame
  simp [allocate, record, hstate, hqueue, writeFront, FrameWriter.getSequence]

/-- When the queue is empty, a write that completes starts none. -/
theorem onWriteFrame_of_nil {s : ConnectionManager} (hqueue : s.writeQueue = []) :
    onWriteFrame Γ true s = .ok () { s with currentWriteFrame := none } := by
  unfold onWriteFrame
  simp [hqueue]

/-- The next byte of a write whose frame is current and whose header the writer holds is the next byte of the frame. -/
theorem nextByte_eq {K : Constants} {s : ConnectionManager} {w : AsyncWrite} (hcurrent : s.currentWriteFrame = some w.frame)
    (hheader : s.writer.header = w.frame.frame.header K) : w.nextByte K s = (w.frame.frame.sequence K)[w.sent]? := by
  have hholds : s.Holds w.frame := Or.inl hcurrent
  have hlen := w.frame.frame.length_header K
  unfold AsyncWrite.nextByte Frame.sequence
  split
  · rename_i hlt
    rw [List.getElem?_append_left (by omega), hheader]
  · rename_i hge
    rw [List.getElem?_append_right (by omega), hlen]
    split
    · rename_i hlt
      rw [List.getElem?_append_left (by omega)]
    · rename_i hge'
      rw [List.getElem?_append_right (by omega)]
      split
      · rename_i heq
        rw [heq, Nat.add_sub_cancel, Nat.sub_self]
        rfl
      · rename_i hne
        rw [List.getElem?_eq_none]
        rw [List.length_singleton]
        omega

/-- The one write that is in flight, when there is one. -/
theorem eq_singleton {s : ConnectionManager} {K : Constants} (h : s.WritesInOrder K) {i : Nat} {w : AsyncWrite}
    (hw : s.writes[i]? = some w) : i = 0 ∧ s.writes = [w] := by
  have hlt := (List.getElem?_eq_some_iff.mp hw).1
  have hone := h.one
  obtain rfl : i = 0 := by omega
  obtain ⟨w', hw'⟩ := List.length_eq_one_iff.mp (show s.writes.length = 1 by omega)
  rw [hw'] at hw
  cases hw
  exact ⟨rfl, hw'⟩

/-- A frame submitted alone. -/
theorem idle_beginWriteFrame {r : ConnectionRun} (hr : Idle Γ r) (hwrites : r.manager.writes = []) (fr : Frame) :
    ∃ r', ConnectionRun.next Γ r.manager (.beginWriteFrame fr) = some r' ∧ Idle Γ r' := by
  have hbytes := hr.inOrder.bytes
  rw [hwrites, hr.queue] at hbytes
  simp only [ConnectionRun.next, runBeginWriteFrame_of_nil hr.state hr.queue]
  refine ⟨_, rfl, hr.state, hr.queue, ?_, ?_, ?_⟩
  · simp [hwrites]
  · simp [hwrites]
  · have hsub : (r.manager.calls ++ [Call.beginWriteFrame fr]).filterMap Call.submits = r.manager.submitted ++ [fr] :=
      List.filterMap_append
    have hsocket : r.manager.socket = r.manager.submitted.flatMap (·.sequence Γ.constants) := by simpa using hbytes
    simp [submitted, hsub, hsocket, hwrites, hr.queue, AsyncWrite.rest]

/-- A frame submitted while a write is in flight: there are two afterwards. -/
theorem not_inOrder_of_writes {r r' : ConnectionRun} (hr : Idle Γ r) (hwrites : r.manager.writes ≠ []) {fr : Frame}
    (h : ConnectionRun.next Γ r.manager (.beginWriteFrame fr) = some r') :
    r'.manager.state = .openState ∧ ¬r'.manager.WritesInOrder Γ.constants := by
  simp only [ConnectionRun.next, runBeginWriteFrame_of_nil hr.state hr.queue] at h
  cases h
  refine ⟨hr.state, fun hin => ?_⟩
  have hone := hin.one
  have hpos := List.length_pos_iff.mpr hwrites
  simp only [List.length_append, List.length_singleton] at hone
  omega

/-- The socket takes a byte. -/
theorem idle_transmit {r r' : ConnectionRun} (hr : Idle Γ r) {i : Nat}
    (h : ConnectionRun.next Γ r.manager (.transmit i) = some r') : Idle Γ r' := by
  obtain ⟨m, hm, rfl⟩ := Option.map_eq_some_iff.mp h
  obtain ⟨w, hw, hm⟩ := Option.bind_eq_some_iff.mp hm
  obtain ⟨b, hb, hm⟩ := Option.bind_eq_some_iff.mp hm
  cases hm
  obtain ⟨rfl, hwrites⟩ := eq_singleton hr.inOrder hw
  obtain ⟨hcurrent, hheader⟩ := hr.inOrder.current w (by simp [hwrites])
  rw [nextByte_eq hcurrent hheader] at hb
  -- What the write had to send is the byte taken and what it has to send now.
  obtain ⟨hlt, hget⟩ := List.getElem?_eq_some_iff.mp hb
  have hrest : w.rest Γ.constants = b :: ({ w with sent := w.sent + 1 } : AsyncWrite).rest Γ.constants :=
    hget ▸ List.drop_eq_getElem_cons hlt
  have hbytes := hr.inOrder.bytes
  refine ⟨hr.state, hr.queue, ?_, ?_, ?_⟩
  · simp [hwrites]
  · simp [hwrites, hcurrent, hheader]
  · simp only [hwrites, hr.queue, List.flatMap_cons, List.flatMap_nil, List.append_nil, hrest] at hbytes
    simpa [hwrites, hr.queue, submitted] using hbytes

/-- A write completes. -/
theorem idle_writeDone {r r' : ConnectionRun} (hr : Idle Γ r) {i : Nat}
    (h : ConnectionRun.next Γ r.manager (.writeDone i true) = some r') : Idle Γ r' := by
  simp only [ConnectionRun.next] at h
  split at h
  · rename_i w hw
    split at h
    · cases h
    · rename_i hsize
      obtain ⟨rfl, hwrites⟩ := eq_singleton hr.inOrder hw
      have hdone : w.rest Γ.constants = [] := by
        refine List.drop_eq_nil_of_le ?_
        rw [Frame.length_sequence]
        exact (not_not.mp fun hne => hsize ⟨trivial, hne⟩).ge
      have hbytes := hr.inOrder.bytes
      simp only [hwrites, hr.queue, List.flatMap_cons, List.flatMap_nil, hdone, List.append_nil] at hbytes
      rw [onWriteFrame_of_nil (by exact hr.queue)] at h
      cases h
      refine ⟨hr.state, hr.queue, ?_, ?_, ?_⟩
      · simp [hwrites]
      · simp [hwrites]
      · simpa [hwrites, hr.queue, submitted] using hbytes
  · cases h

end WritePathAux

open WritePathAux

/-- In every run of submissions, bytes taken by the socket and writes that succeed, the frames are written in order whenever
the connection is open exactly when each frame is submitted while no write is in flight. -/
theorem writesInOrder_iff (Γ : Env) {es : List ConnectionEvent} {r : ConnectionRun} (h : (writeMachine Γ).run es = some r) :
    (writeMachine Γ).Always (fun r => r.manager.state = .openState → r.manager.WritesInOrder Γ.constants) es ↔
      (writeMachine Γ).Guarded SubmittedAlone es := by
  refine Machine.always_iff_guarded (I := Idle Γ) idle_init ?_ ?_ ?_ h
  · intro r e r' hr hg hstep
    obtain ⟨hpath, hstep⟩ := Machine.step_of_restrict hstep
    obtain ⟨-, hnext⟩ := ConnectionRun.next_of_step hstep
    cases e with
    | beginWriteFrame fr =>
      obtain ⟨r'', hnext', hr'⟩ := idle_beginWriteFrame hr (hg ⟨fr, rfl⟩) fr
      obtain rfl : r'' = r' := Option.some.inj (hnext'.symm.trans hnext)
      exact hr'
    | transmit i => exact idle_transmit hr hnext
    | writeDone i ok =>
      obtain rfl : ok = true := hpath
      exact idle_writeDone hr hnext
    | startOpenChannel => cases hpath
    | readDone i bytes => cases hpath
    | destroyChannel i => cases hpath
    | beginRpc i method classId methodId => cases hpath
  · exact fun _ hr _ => hr.inOrder
  · intro r e r' hr hg hstep hgood
    obtain ⟨-, hstep⟩ := Machine.step_of_restrict hstep
    obtain ⟨⟨fr, rfl⟩, hwrites⟩ := Classical.not_imp.mp hg
    obtain ⟨hstate, hnot⟩ := not_inOrder_of_writes hr hwrites (ConnectionRun.next_of_step hstep).2
    exact hnot (hgood hstate)

/-- An empty heartbeat frame is submitted and written, and then another is submitted. -/
theorem writesInOrder_two :
    (writeMachine .sample).Always (fun r => r.manager.state = .openState → r.manager.WritesInOrder Constants.sample)
      ([.beginWriteFrame ⟨.heartbeat, 0, []⟩] ++ (List.replicate 8 (.transmit 0) ++ [.writeDone 0 true]) ++
        [.beginWriteFrame ⟨.heartbeat, 0, []⟩]) := by
  obtain ⟨r, hr⟩ : ∃ r, (writeMachine .sample).run
      ([.beginWriteFrame ⟨.heartbeat, 0, []⟩] ++ (List.replicate 8 (.transmit 0) ++ [.writeDone 0 true]) ++
        [.beginWriteFrame ⟨.heartbeat, 0, []⟩]) = some r := ⟨_, rfl⟩
  refine (writesInOrder_iff .sample hr).mpr (Machine.guarded_snoc.mpr ⟨Machine.Guarded.append ?_ ?_, ?_⟩)
  · refine (@Machine.guarded_snoc _ _ _ _ [] _).mpr ⟨Machine.guarded_nil _, ?_⟩
    rintro _ ⟨⟩ -
    rfl
  · rintro e he s ⟨fr, rfl⟩
    simp at he
  · intro s hs _
    have hwrites : ((writeMachine .sample).run ([.beginWriteFrame ⟨.heartbeat, 0, []⟩] ++
        (List.replicate 8 (.transmit 0) ++ [.writeDone 0 true]))).map (fun r => r.manager.writes) = some [] := by decide
    rw [hs] at hwrites
    exact Option.some.inj hwrites

/-- A frame with a byte on channel 1, and one on channel 2 submitted while the first is being written: two writes are in
flight, and the first sends the header of the second. -/
theorem two_submitted_frames_interleave :
    ((writeMachine .sample).run
        (.beginWriteFrame ⟨.body, 1, [7]⟩ :: .beginWriteFrame ⟨.heartbeat, 2, []⟩ :: List.replicate 3 (.transmit 0))).map
      (fun r => (r.manager.state, r.manager.writes.length, r.manager.socket)) =
        some (.openState, 2, [8, 0, 2]) ∧
    ¬[8, 0, 2] <+: [(⟨.body, 1, [7]⟩ : Frame), ⟨.heartbeat, 2, []⟩].flatMap (·.sequence .sample) := by
  decide

end Amqpp
