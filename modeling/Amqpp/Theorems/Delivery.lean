import Amqpp.Connection.Submits
import Amqpp.Theorems.ReadLoop
import Amqpp.Theorems.WritePath

/-!
# From one connection to the other

Frames are submitted from every side of a connection: by its users, by the opening of channels, by the answers to dead
channels. The bytes on the socket are those of the frames in the order they were submitted, as long as each is submitted when
no write is in flight. The read loop at the other end then dispatches the frames that were submitted here, in their order,
none lost, none twice and none made up.
-/

namespace Amqpp

/-- At most one write is in flight, of the current frame and with the header in the writer. What is on the socket and what
the write has still to send are the first of the frames that were submitted, and all of them while the connection is open.
-/
structure ConnectionManager.SendsInOrder (K : Constants) (s : ConnectionManager) : Prop where
  one : s.writes.length ≤ 1
  current : ∀ w ∈ s.writes, s.currentWriteFrame = some w.frame ∧ s.writer.header = w.frame.frame.header K
  sent : s.socket ++ s.writes.flatMap (·.rest K) <+: s.submitted.flatMap (·.sequence K)
  all : s.state = .openState → s.socket ++ s.writes.flatMap (·.rest K) = s.submitted.flatMap (·.sequence K)

/-- While the connection is open, the step submits a frame only when no write is in flight, and then one. -/
def SubmitsAlone (Γ : Env) (r : ConnectionRun) (e : ConnectionEvent) : Prop :=
  ∀ r', r.step Γ e = some r' → r.manager.state = .openState →
    r'.manager.submitted.length ≤ r.manager.submitted.length + if r.manager.writes = [] then 1 else 0

namespace DeliveryAux

open ConnectionManager

variable {Γ : Env} {K : Constants}

/-! ### The write side -/

/-- The property looks at the write side and the frames submitted. -/
theorem sendsInOrder_of_side {s t : ConnectionManager} (h : s.SendsInOrder K) (hside : t.writeSide = s.writeSide)
    (hsubmitted : ∃ frs, t.submitted = s.submitted ++ frs ∧ (s.state = .openState → frs = [])) : t.SendsInOrder K := by
  have hstate : t.state = s.state := congrArg WriteSide.state hside
  have hwriter : t.writer = s.writer := congrArg WriteSide.writer hside
  have hcurrent : t.currentWriteFrame = s.currentWriteFrame := congrArg WriteSide.currentWriteFrame hside
  have hwrites : t.writes = s.writes := congrArg WriteSide.writes hside
  have hsocket : t.socket = s.socket := congrArg WriteSide.socket hside
  obtain ⟨frs, hfrs, hopen⟩ := hsubmitted
  refine ⟨hwrites ▸ h.one, ?_, ?_, fun ht => ?_⟩
  · rw [hwrites, hcurrent, hwriter]
    exact h.current
  · rw [hsocket, hwrites, hfrs, List.flatMap_append]
    exact h.sent.trans (List.prefix_append _ _)
  · rw [hsocket, hwrites, hfrs, hopen (hstate ▸ ht), List.append_nil]
    exact h.all (hstate ▸ ht)

/-- On a connection that is not open submissions are dropped. -/
theorem foldl_submit_closed {w : WriteSide} (h : w.state ≠ .openState) (frs : List FramePtr) :
    frs.foldl (·.submit K) w = w := by
  induction frs with
  | nil => rfl
  | cons fr frs ih =>
    rw [List.foldl_cons, WriteSide.submit, if_pos h]
    exact ih

/-- On an open connection and an empty queue a submission starts a write. -/
theorem submit_open {w : WriteSide} (hstate : w.state = .openState) (hqueue : w.writeQueue = []) (fr : FramePtr) :
    w.submit K fr = { w with writer := ⟨fr.frame.header K⟩, currentWriteFrame := some fr, writes := w.writes ++ [⟨fr, 0⟩] } := by
  rw [WriteSide.submit, if_neg (not_not.mpr hstate), if_pos hqueue]

theorem foldl_submit_open {w : WriteSide} (hstate : w.state = .openState) (hqueue : w.writeQueue = []) (frs : List FramePtr) :
    (frs.foldl (·.submit K) w).writeQueue = [] ∧
      (frs.foldl (·.submit K) w).writes.length = w.writes.length + frs.length := by
  induction frs generalizing w with
  | nil => exact ⟨hqueue, rfl⟩
  | cons fr frs ih =>
    have hsubmit := submit_open (K := K) hstate hqueue fr
    obtain ⟨hqueue', hlength⟩ := ih (w := w.submit K fr) (by rw [hsubmit]; exact hstate) (by rw [hsubmit]; exact hqueue)
    refine ⟨hqueue', ?_⟩
    rw [List.foldl_cons, hlength, hsubmit, List.length_append, List.length_singleton, List.length_cons]
    omega

/-- What every step keeps. -/
structure Sends (Γ : Env) (r : ConnectionRun) : Prop where
  queue : r.manager.writeQueue = []
  inOrder : r.manager.SendsInOrder Γ.constants

theorem sends_init : Sends Γ (connectionMachine Γ).init :=
  ⟨rfl, Nat.zero_le 1, nofun, List.prefix_refl _, fun _ => rfl⟩

/-! ### Steps -/

/-- The one write that is in flight, when there is one. -/
theorem eq_singleton {ws : List AsyncWrite} (hone : ws.length ≤ 1) {i : Nat} {w : AsyncWrite} (hw : ws[i]? = some w) :
    i = 0 ∧ ws = [w] := by
  have hlt := (List.getElem?_eq_some_iff.mp hw).1
  obtain rfl : i = 0 := by omega
  obtain ⟨w', rfl⟩ := List.length_eq_one_iff.mp (show ws.length = 1 by omega)
  cases hw
  exact ⟨rfl, rfl⟩

/-- Frames are submitted: on an open connection at most one, and none while a write is in flight. -/
theorem sends_submits {s t : ConnectionManager} (hqueue : s.writeQueue = []) (hs : s.SendsInOrder K) (h : Submits K s t)
    (hone : s.state = .openState → t.submitted.length ≤ s.submitted.length + if s.writes = [] then 1 else 0) :
    t.writeQueue = [] ∧ t.SendsInOrder K := by
  obtain ⟨frs, hsubmitted, hside⟩ := h
  by_cases hstate : s.state = .openState
  · have hlength := hone hstate
    rw [hsubmitted, List.length_append, List.length_map] at hlength
    rcases frs with _ | ⟨fr, frs⟩
    · refine ⟨(congrArg WriteSide.writeQueue hside).trans hqueue, sendsInOrder_of_side hs hside ⟨[], ?_, fun _ => rfl⟩⟩
      rw [hsubmitted, List.map_nil]
    · -- One frame, and no write is in flight.
      rw [List.length_cons] at hlength
      have hwrites : s.writes = [] := by
        by_contra hne
        rw [if_neg hne] at hlength
        omega
      rw [if_pos hwrites] at hlength
      obtain rfl : frs = [] := List.length_eq_zero_iff.mp (by omega)
      have hsubmit : t.writeSide = { s.writeSide with
          writer := ⟨fr.frame.header K⟩, currentWriteFrame := some fr, writes := s.writes ++ [⟨fr, 0⟩] } :=
        hside.trans (submit_open (w := s.writeSide) hstate hqueue fr)
      have htwrites : t.writes = [⟨fr, 0⟩] := (congrArg WriteSide.writes hsubmit).trans (by rw [hwrites]; rfl)
      have hcurrent : t.currentWriteFrame = some fr := congrArg WriteSide.currentWriteFrame hsubmit
      have hwriter : t.writer = ⟨fr.frame.header K⟩ := congrArg WriteSide.writer hsubmit
      have hsocket : t.socket = s.socket := congrArg WriteSide.socket hsubmit
      have hall : t.socket ++ t.writes.flatMap (·.rest K) = t.submitted.flatMap (·.sequence K) := by
        have hold := hs.all hstate
        rw [hwrites, List.flatMap_nil, List.append_nil] at hold
        rw [hsocket, hold, htwrites, hsubmitted, List.flatMap_append]
        rfl
      refine ⟨(congrArg WriteSide.writeQueue hsubmit).trans hqueue, ?_, ?_, hall ▸ List.prefix_refl _, fun _ => hall⟩
      · rw [htwrites]
        exact Nat.le_refl 1
      · rw [htwrites, hcurrent, hwriter]
        exact List.forall_mem_singleton.mpr ⟨rfl, rfl⟩
  · have hsame : t.writeSide = s.writeSide := by
      rw [hside, foldl_submit_closed hstate]
    refine ⟨(congrArg WriteSide.writeQueue hsame).trans hqueue, sendsInOrder_of_side hs hsame ⟨_, hsubmitted, fun h => ?_⟩⟩
    exact absurd h hstate

/-- The socket takes a byte. -/
theorem sends_transmit {s t : ConnectionManager} (hqueue : s.writeQueue = []) (hs : s.SendsInOrder K) {i : Nat}
    (h : s.transmit K i = some t) : t.writeQueue = [] ∧ t.SendsInOrder K := by
  obtain ⟨w, hw, h⟩ := Option.bind_eq_some_iff.mp h
  obtain ⟨b, hb, h⟩ := Option.bind_eq_some_iff.mp h
  cases h
  obtain ⟨rfl, hwrites⟩ := eq_singleton hs.one hw
  obtain ⟨hcurrent, hheader⟩ := hs.current w (by simp [hwrites])
  rw [WritePathAux.nextByte_eq hcurrent hheader] at hb
  -- What the write had to send is the byte taken and what it has to send now.
  obtain ⟨hlt, hget⟩ := List.getElem?_eq_some_iff.mp hb
  have hrest : w.rest K = b :: ({ w with sent := w.sent + 1 } : AsyncWrite).rest K := hget ▸ List.drop_eq_getElem_cons hlt
  have hbytes : s.socket ++ [b] ++ (s.writes.set 0 { w with sent := w.sent + 1 }).flatMap (·.rest K) =
      s.socket ++ s.writes.flatMap (·.rest K) := by
    simp [hwrites, hrest]
  refine ⟨hqueue, ?_, ?_, ?_, fun hstate => ?_⟩
  · rw [List.length_set]
    exact hs.one
  · simp [hwrites, hcurrent, hheader]
  · change s.socket ++ [b] ++ _ <+: _
    rw [hbytes]
    exact hs.sent
  · change s.socket ++ [b] ++ _ = _
    rw [hbytes]
    exact hs.all hstate

/-- A write leaves, completed or not. -/
theorem sends_erase {s t : ConnectionManager} (hs : s.SendsInOrder K) {i : Nat} {w : AsyncWrite} (hw : s.writes[i]? = some w)
    (hwrites : t.writes = s.writes.eraseIdx i) (hsocket : t.socket = s.socket) (hsubmitted : t.submitted = s.submitted)
    (hstate : t.state = .openState → s.state = .openState ∧ w.sent = w.size) : t.SendsInOrder K := by
  obtain ⟨rfl, hsingle⟩ := eq_singleton hs.one hw
  have hnil : t.writes = [] := by
    rw [hwrites, hsingle]
    rfl
  have hsent : s.socket <+: s.submitted.flatMap (·.sequence K) := (List.prefix_append _ _).trans hs.sent
  refine ⟨?_, ?_, ?_, fun ht => ?_⟩
  · rw [hnil]
    exact Nat.zero_le 1
  · rw [hnil]
    exact nofun
  · rw [hnil, hsocket, hsubmitted, List.flatMap_nil, List.append_nil]
    exact hsent
  · obtain ⟨hs', hsize⟩ := hstate ht
    have hdone : w.rest K = [] := List.drop_eq_nil_of_le (by rw [Frame.length_sequence, hsize, AsyncWrite.size])
    have hall := hs.all hs'
    rw [hsingle, List.flatMap_singleton, hdone] at hall
    rw [hnil, hsocket, hsubmitted]
    exact hall

/-- A step that submits frames alone. -/
theorem sends_step {s : ConnectionManager} {e : ConnectionEvent} {t : ConnectionManager} (hqueue : s.writeQueue = [])
    (hs : s.SendsInOrder Γ.constants) (h : WriteStep Γ s e t)
    (hone : s.state = .openState → t.submitted.length ≤ s.submitted.length + if s.writes = [] then 1 else 0) :
    t.writeQueue = [] ∧ t.SendsInOrder Γ.constants := by
  cases h with
  | submits h => exact sends_submits hqueue hs h hone
  | transmit h => exact sends_transmit hqueue hs h
  | done hw hsent ht =>
    subst ht
    exact ⟨hqueue, sends_erase hs hw rfl rfl rfl fun hstate => ⟨hstate, hsent⟩⟩
  | failed hw h =>
    refine ⟨(congrArg WriteSide.writeQueue h.side).trans hqueue, sends_erase hs hw (congrArg WriteSide.writes h.side)
      (congrArg WriteSide.socket h.side) h.submitted fun hstate => ?_⟩
    have hclosed : t.state = .closedState := congrArg WriteSide.state h.side
    rw [hclosed] at hstate
    cases hstate
  | closed h =>
    have hclosing : ({ s with state := .closedState } : ConnectionManager).SendsInOrder Γ.constants :=
      ⟨hs.one, hs.current, hs.sent, nofun⟩
    exact ⟨(congrArg WriteSide.writeQueue h.side).trans hqueue,
      sendsInOrder_of_side hclosing h.side ⟨[], h.submitted.trans (List.append_nil _).symm, nofun⟩⟩

/-- A step that submits a frame too many leaves two writes in flight. -/
theorem not_sends_step {s : ConnectionManager} {e : ConnectionEvent} {t : ConnectionManager} (hqueue : s.writeQueue = [])
    (h : WriteStep Γ s e t) (hstate : s.state = .openState)
    (hone : ¬t.submitted.length ≤ s.submitted.length + if s.writes = [] then 1 else 0) : ¬t.SendsInOrder Γ.constants := by
  have hsame : t.submitted ≠ s.submitted := by
    intro heq
    rw [heq] at hone
    omega
  cases h with
  | submits h =>
    obtain ⟨frs, hsubmitted, hside⟩ := h
    have hlength : t.writes.length = s.writes.length + frs.length := by
      have := (foldl_submit_open (K := Γ.constants) (w := s.writeSide) hstate hqueue frs).2
      rwa [← hside] at this
    rw [hsubmitted, List.length_append, List.length_map] at hone
    intro hin
    have htwo := hin.one
    split at hone
    · omega
    · rename_i hne
      have hpos := List.length_pos_iff.mpr hne
      omega
  | transmit h =>
    obtain ⟨w, -, h⟩ := Option.bind_eq_some_iff.mp h
    obtain ⟨b, -, h⟩ := Option.bind_eq_some_iff.mp h
    cases h
    exact absurd rfl hsame
  | done hw hsent ht =>
    subst ht
    exact absurd rfl hsame
  | failed hw h => exact absurd h.submitted hsame
  | closed h => exact absurd h.submitted hsame

/-! ### Runs -/

theorem sends_snoc {r r' : ConnectionRun} {e : ConnectionEvent} (hr : Sends Γ r) (hg : SubmitsAlone Γ r e)
    (h : r.step Γ e = some r') : Sends Γ r' := by
  obtain ⟨hqueue, hin⟩ := sends_step hr.queue hr.inOrder (ConnectionRun.writeStep_of_next hr.queue (ConnectionRun.next_of_step h).2)
    (hg r' h)
  exact ⟨hqueue, hin⟩

/-- In a run that submits frames alone. -/
theorem sends_of_run {es : List ConnectionEvent} {r : ConnectionRun} (h : (connectionMachine Γ).run es = some r)
    (hg : (connectionMachine Γ).Guarded (SubmitsAlone Γ) es) : Sends Γ r :=
  Machine.Guarded.invariant sends_init (fun _ _ _ hs hg hstep => sends_snoc hs hg hstep) hg h

/-- The frames of a part of a stream are the first of the frames of the stream. -/
theorem prefix_of_flatMap_prefix {fs gs : List Frame} {left : List UInt8} (hfs : ∀ f ∈ fs, f.payload.length < 2 ^ 32)
    (hgs : ∀ g ∈ gs, g.payload.length < 2 ^ 32)
    (h : fs.flatMap (·.sequence K) ++ left <+: gs.flatMap (·.sequence K)) : fs <+: gs := by
  induction fs generalizing gs with
  | nil => exact List.nil_prefix
  | cons f fs ih =>
    rw [List.flatMap_cons, List.append_assoc] at h
    cases gs with
    | nil =>
      have hnil := List.prefix_nil.mp h
      have hlen := congrArg List.length hnil
      rw [List.length_append, Frame.length_sequence] at hlen
      simp at hlen
    | cons g gs =>
      obtain ⟨rest, hrest⟩ := h
      rw [List.flatMap_cons, List.append_assoc] at hrest
      -- Both streams open with a frame, and a stream opens with one only.
      obtain ⟨b, hf⟩ := reads_readFrame K .create f (hfs f List.mem_cons_self)
      obtain ⟨b', hg⟩ := reads_readFrame K .create g (hgs g List.mem_cons_self)
      obtain ⟨heq, hbytes⟩ := hf.inj hg hrest
      obtain ⟨rfl, -⟩ := Prod.mk.inj heq
      refine (List.prefix_cons_inj f).mpr (ih (fun x hx => hfs x (List.mem_cons_of_mem _ hx)) (fun x hx => hgs x (List.mem_cons_of_mem _ hx)) ?_)
      exact ⟨rest, hbytes⟩

/-- What the read loop received are the bytes of the frames it dispatched, and bytes that no frame opens. -/
theorem received_of_run {es : List ConnectionEvent} {r : ConnectionRun} (h : (connectionMachine Γ).run es = some r)
    (hreturns : (connectionMachine Γ).Guarded (DispatchReturns Γ) es) :
    (∀ f ∈ r.manager.dispatched, f.payload.length < 2 ^ 32) ∧ ∃ left ex,
      es.flatMap ConnectionEvent.received = r.manager.dispatched.flatMap (·.sequence Γ.constants) ++ left ∧
      ∀ b, readFrame Γ.constants b (.ofString left) = .error ex := by
  have hloop := ReadLoopAux.loop_of_run h hreturns
  obtain ⟨left, ex, hleft, hfail, -⟩ := hloop.left
  exact ⟨hloop.short, left, ex, hleft, hfail⟩

/-- A byte taken by the socket is no submission. -/
theorem submitsAlone_transmit (r : ConnectionRun) (i : Nat) : SubmitsAlone Γ r (.transmit i) := by
  intro r' h _
  obtain ⟨t, ht, rfl⟩ := Option.map_eq_some_iff.mp (ConnectionRun.next_of_step h).2
  obtain ⟨w, -, ht⟩ := Option.bind_eq_some_iff.mp ht
  obtain ⟨b, -, ht⟩ := Option.bind_eq_some_iff.mp ht
  cases ht
  exact Nat.le_add_right _ _

/-- The completion of a write is no submission. -/
theorem submitsAlone_writeDone (r : ConnectionRun) (i : Nat) : SubmitsAlone Γ r (.writeDone i true) := by
  intro r' h _
  have hnext := (ConnectionRun.next_of_step h).2
  simp only [ConnectionRun.next] at hnext
  split at hnext
  · split at hnext
    · cases hnext
    · have hsame := ConnectionRun.afterHandler_leaves hnext (submitted_onWriteFrame Γ { r.manager with writes := r.manager.writes.eraseIdx i })
      rw [hsame]
      exact Nat.le_add_right _ _
  · cases hnext

/-- A frame is submitted first of all, and its bytes are taken. -/
theorem openOk_alone : (connectionMachine .sample).Guarded (SubmitsAlone .sample)
    ([.beginWriteFrame EnvSample.openOkFrame] ++ List.replicate 16 (.transmit 0)) := by
  refine Machine.Guarded.append ((@Machine.guarded_snoc _ _ _ _ [] _).mpr ⟨Machine.guarded_nil _, ?_⟩) fun e he s => ?_
  · rintro _ ⟨⟩ _ ⟨⟩ -
    decide
  · rw [List.eq_of_mem_replicate he]
    exact submitsAlone_transmit s 0

/-- The frames are sent in order along a run exactly when they are submitted on their own. -/
theorem sends_iff {es : List ConnectionEvent} {r : ConnectionRun} (h : (connectionMachine Γ).run es = some r) :
    (connectionMachine Γ).Always (fun r => r.manager.SendsInOrder Γ.constants) es ↔
      (connectionMachine Γ).Guarded (SubmitsAlone Γ) es := by
  refine Machine.always_iff_guarded (I := Sends Γ) sends_init (fun _ _ _ hs hg hstep => sends_snoc hs hg hstep) (fun _ hs => hs.inOrder)
    (fun r e r' hr hg hstep => ?_) h
  have hwrite := ConnectionRun.writeStep_of_next hr.queue (ConnectionRun.next_of_step hstep).2
  simp only [SubmitsAlone, not_forall] at hg
  obtain ⟨r'', hstep', hstate, hlength⟩ := hg
  obtain rfl : r' = r'' := Option.some.inj (hstep.symm.trans hstep')
  exact not_sends_step hr.queue hwrite hstate hlength

end DeliveryAux

open DeliveryAux

/-- In every run of a connection, with frames submitted from every side, reads, errors and requests, the frames are sent in
order throughout exactly when each frame is submitted on its own, while no write is in flight. -/
theorem sendsInOrder_iff (Γ : Env) {es : List ConnectionEvent} {r : ConnectionRun} (h : (connectionMachine Γ).run es = some r) :
    (connectionMachine Γ).Always (fun r => r.manager.SendsInOrder Γ.constants) es ↔
      (connectionMachine Γ).Guarded (SubmitsAlone Γ) es :=
  sends_iff h

/-- A frame is submitted and its bytes are taken. -/
theorem sendsInOrder_openOk :
    (connectionMachine .sample).Always (fun r => r.manager.SendsInOrder Constants.sample)
      ([.beginWriteFrame EnvSample.openOkFrame] ++ List.replicate 16 (.transmit 0)) := by
  have hrun : ((connectionMachine .sample).run ([.beginWriteFrame EnvSample.openOkFrame] ++ List.replicate 16 (.transmit 0))).isSome := by
    decide +kernel
  obtain ⟨r, hr⟩ := Option.isSome_iff_exists.mp hrun
  exact (sendsInOrder_iff .sample hr).mpr openOk_alone

/-- Two connections, one of which receives bytes that the other's socket has taken. When frames are submitted on their own
at one end, and `dispatch_frame` returns at the other, the frames dispatched there are the first of the frames submitted
here, in their order; and they are all of them, once every byte is received while the connection is open and no write is in
flight. -/
theorem frames_delivered_in_order (Γ Γ' : Env) (hconstants : Γ'.constants = Γ.constants) {es es' : List ConnectionEvent}
    {r r' : ConnectionRun} (h : (connectionMachine Γ).run es = some r) (h' : (connectionMachine Γ').run es' = some r')
    (halone : (connectionMachine Γ).Guarded (SubmitsAlone Γ) es)
    (hreturns : (connectionMachine Γ').Guarded (DispatchReturns Γ') es')
    (hsizes : ∀ f ∈ r.manager.submitted, f.payload.length < 2 ^ 32)
    (hwire : es'.flatMap ConnectionEvent.received <+: r.manager.socket) :
    r'.manager.dispatched <+: r.manager.submitted ∧
      (r.manager.state = .openState → r.manager.writes = [] → es'.flatMap ConnectionEvent.received = r.manager.socket →
        r'.manager.dispatched = r.manager.submitted) := by
  obtain ⟨hshort, left, ex, hreceived, hfail⟩ := received_of_run h' hreturns
  rw [hconstants] at hreceived hfail
  have hin := (sends_of_run h halone).inOrder
  have hsocket : r.manager.socket <+: r.manager.submitted.flatMap (·.sequence Γ.constants) :=
    (List.prefix_append _ _).trans hin.sent
  have hfirst : r'.manager.dispatched <+: r.manager.submitted :=
    prefix_of_flatMap_prefix hshort hsizes (hreceived ▸ hwire.trans hsocket)
  refine ⟨hfirst, fun hstate hwrites hall => ?_⟩
  obtain ⟨missing, hmissing⟩ := hfirst
  have hbytes := hin.all hstate
  rw [hwrites, List.flatMap_nil, List.append_nil, ← hall, hreceived, ← hmissing, List.flatMap_append] at hbytes
  -- No frame opens what is left, so none is missing.
  have hleft := List.append_cancel_left hbytes
  cases missing with
  | nil => rw [← hmissing, List.append_nil]
  | cons f fs =>
    obtain ⟨b, hread⟩ := reads_readFrame Γ.constants .create f (hsizes f (by rw [← hmissing]; simp))
    have hok := hread (fs.flatMap (·.sequence Γ.constants))
    rw [← List.flatMap_cons, ← hleft, hfail] at hok
    cases hok

/-- The bytes of a `channel.open_ok`, as they are submitted at one end, are read at the other. -/
theorem frames_delivered_openOk :
    ∃ r r', (connectionMachine .sample).run (.beginWriteFrame EnvSample.openOkFrame :: List.replicate 16 (.transmit 0)) = some r ∧
      (connectionMachine .sample).run [.startOpenChannel, .readDone 0 (some [1, 0, 1, 0, 0, 0, 8, 0]),
        .readDone 0 (some [20, 0, 11, 0, 0, 0, 0, 206])] = some r' ∧
      r'.manager.dispatched.length = 1 ∧ r'.manager.dispatched <+: r.manager.submitted := by
  have hsent : ((connectionMachine .sample).run (.beginWriteFrame EnvSample.openOkFrame :: List.replicate 16 (.transmit 0))).map
      (fun r => (r.manager.submitted, r.manager.socket)) =
        some ([EnvSample.openOkFrame], [1, 0, 1, 0, 0, 0, 8, 0, 20, 0, 11, 0, 0, 0, 0, 206]) := by decide +kernel
  have hread : ((connectionMachine .sample).run [.startOpenChannel, .readDone 0 (some [1, 0, 1, 0, 0, 0, 8, 0]),
      .readDone 0 (some [20, 0, 11, 0, 0, 0, 0, 206])]).map (fun r => (r.manager.dispatched, r.escaped.isNone)) =
        some ([EnvSample.openOkFrame], true) := by decide +kernel
  obtain ⟨r, hr, hsent⟩ := Option.map_eq_some_iff.mp hsent
  obtain ⟨hsubmitted, hsocket⟩ := Prod.mk.injEq _ _ _ _ |>.mp hsent
  obtain ⟨r', hr', hread⟩ := Option.map_eq_some_iff.mp hread
  obtain ⟨hdispatched, hnone⟩ := Prod.mk.injEq _ _ _ _ |>.mp hread
  have hreturns := ReadLoopAux.guarded_of_escaped_eq_none hr' (Option.isNone_iff_eq_none.mp hnone)
  refine ⟨r, r', hr, hr', congrArg List.length hdispatched, ?_⟩
  refine (frames_delivered_in_order .sample .sample rfl hr hr' openOk_alone hreturns ?_ ?_).1
  · rw [hsubmitted]
    decide
  · rw [hsocket]
    exact List.prefix_refl _

end Amqpp
