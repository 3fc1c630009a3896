import Amqpp.Theorems.ClosedWrites
import Amqpp.Theorems.ReadLoop
import Amqpp.Theorems.Service
import Mathlib.Data.Prod.Lex

/-!
# Nothing is stuck

A write that is in flight can always be finished, and then the next handler can run. While the connection is open a read is
outstanding, so `io_service::run` does not return. So as long as no exception has left it and the connection is open, nothing
has to happen for what was asked for to reach the socket but that the socket takes bytes and the thread goes on: no answer of
the broker, and no further call of a user.
-/

namespace Amqpp

open Machine (Queued QueuedEvent)

/-- The thread goes on with what is there: a handler that waits runs, the socket takes a byte, or a write completes. -/
def Drains : QueuedEvent ConnectionEvent Task → Prop
  | .runTask => True
  | .other (.transmit _) => True
  | .other (.writeDone _ ok) => ok = true
  | _ => False

namespace ProgressAux

open ConnectionManager ServiceAux

variable {Γ : Env} {K : Constants}

/-! ### Writes in flight -/

/-- No write has sent more than it was started with. -/
def Bounded (s : ConnectionManager) : Prop := ∀ w ∈ s.writes, w.sent ≤ w.size

theorem state_submit (w : WriteSide) (fr : FramePtr) : (w.submit K fr).state = w.state := by
  unfold WriteSide.submit
  split
  · rfl
  · split <;> rfl

/-- A submission starts a write from its first byte on, if it starts one. -/
theorem mem_writes_submit {w : WriteSide} {fr : FramePtr} {x : AsyncWrite} (h : x ∈ (w.submit K fr).writes) :
    x ∈ w.writes ∨ x.sent = 0 := by
  unfold WriteSide.submit at h
  split at h
  · exact Or.inl h
  · split at h
    · rcases List.mem_append.mp h with h | h
      · exact Or.inl h
      · rw [List.mem_singleton.mp h]
        exact Or.inr rfl
    · exact Or.inl h

theorem foldl_submit (frs : List FramePtr) (w : WriteSide) :
    (frs.foldl (·.submit K) w).state = w.state ∧ ∀ x ∈ (frs.foldl (·.submit K) w).writes, x ∈ w.writes ∨ x.sent = 0 := by
  induction frs generalizing w with
  | nil => exact ⟨rfl, fun x hx => Or.inl hx⟩
  | cons fr frs ih =>
    obtain ⟨hstate, hwrites⟩ := ih (w.submit K fr)
    refine ⟨hstate.trans (state_submit w fr), fun x hx => ?_⟩
    rcases hwrites x hx with hx | hx
    · exact mem_writes_submit hx
    · exact Or.inr hx

theorem state_of_submits {s t : ConnectionManager} (h : Submits K s t) : t.state = s.state := by
  obtain ⟨frs, -, hside⟩ := h
  exact (congrArg WriteSide.state hside).trans (foldl_submit frs s.writeSide).1

/-- Only the part of a write that was started is sent. -/
theorem bounded_step {s t : ConnectionManager} {e : ConnectionEvent} (hs : s.SendsInOrder Γ.constants) (hbounded : Bounded s)
    (h : WriteStep Γ s e t) : Bounded t := by
  have hunsubmitted : ∀ {s' : ConnectionManager}, Bounded s' → Unsubmitted s' t → Bounded t := by
    intro s' hs' h' w hw
    rw [show t.writes = s'.writes from congrArg WriteSide.writes h'.side] at hw
    exact hs' w hw
  cases h with
  | submits h =>
    obtain ⟨frs, -, hside⟩ := h
    intro w hw
    rw [show t.writes = (frs.foldl (·.submit Γ.constants) s.writeSide).writes from congrArg WriteSide.writes hside] at hw
    rcases (foldl_submit frs s.writeSide).2 w hw with hw | hw
    · exact hbounded w hw
    · rw [hw]
      exact Nat.zero_le _
  | transmit h =>
    obtain ⟨w, hw, h⟩ := Option.bind_eq_some_iff.mp h
    obtain ⟨b, hb, h⟩ := Option.bind_eq_some_iff.mp h
    cases h
    obtain ⟨hcurrent, hheader⟩ := hs.current w (List.mem_of_getElem? hw)
    rw [WritePathAux.nextByte_eq hcurrent hheader] at hb
    obtain ⟨hlt, -⟩ := List.getElem?_eq_some_iff.mp hb
    rw [Frame.length_sequence] at hlt
    intro x hx
    rcases List.mem_or_eq_of_mem_set hx with hx | rfl
    · exact hbounded x hx
    · exact hlt
  | done _ _ ht =>
    subst ht
    exact fun x hx => hbounded x (List.mem_of_mem_eraseIdx hx)
  | @failed i _ _ _ h =>
    have herased : Bounded { s with writes := s.writes.eraseIdx i, state := .closedState } :=
      fun x hx => hbounded x (List.mem_of_mem_eraseIdx hx)
    exact hunsubmitted herased h
  | closed h =>
    have hclosed : Bounded { s with state := .closedState } := hbounded
    exact hunsubmitted hclosed h

/-! ### A connection that goes on -/

/-- While the connection is open, nothing has failed. -/
theorem isError_of_open {es : List ConnectionEvent} : ∀ {r : ConnectionRun}, (connectionMachine Γ).run es = some r →
    r.manager.state = .openState → ∀ e ∈ es, e.isError = false := by
  induction es using List.reverseRecOn with
  | nil => exact fun _ _ e he => absurd he List.not_mem_nil
  | append_singleton es e ih =>
    intro r h hopen
    obtain ⟨s, hs, hstep⟩ := Machine.run_snoc_eq_some _ |>.mp h
    have hstate := (ClosedWritesAux.stepWrites_of_run hs hstep).state
    rw [hopen] at hstate
    split at hstate
    · cases hstate
    · rename_i he
      refine List.forall_mem_append.mpr ⟨ih hs hstate.symm, List.forall_mem_singleton.mpr ?_⟩
      exact Bool.not_eq_true _ ▸ he

/-- While the connection is open and no exception has ended the run, a read is outstanding. -/
theorem reads_of_open {es : List ConnectionEvent} {r : ConnectionRun} (h : (connectionMachine Γ).run es = some r)
    (hescaped : r.escaped = none) (hopen : r.manager.state = .openState) : r.manager.reads.length = 1 := by
  refine (ReadLoopAux.loop_of_run h (ReadLoopAux.guarded_of_escaped_eq_none h hescaped)).going hescaped fun i hi => ?_
  cases isError_of_open h hopen _ hi

/-- The thread runs, the connection is open, and its frames go out in their order. -/
structure Goes (Γ : Env) (q : Queued ConnectionRun Task) : Prop where
  escaped : q.state.escaped = none
  state : q.state.manager.state = .openState
  reads : q.state.manager.reads.length = 1
  stopped : q.stopped = false
  sends : DeliveryAux.Sends Γ q.state
  bounded : Bounded q.state.manager

/-- A step that is no completion of a read. -/
theorem Goes.after {q : Queued ConnectionRun Task} (h : Goes Γ q) {e : ConnectionEvent} {r : ConnectionRun}
    (he : ∀ i bytes, e ≠ .readDone i bytes) (halone : SubmitsAlone Γ q.state e) (hstep : q.state.step Γ e = some r)
    (hescaped : r.escaped = none) (hstate : r.manager.state = .openState) (tasks : List Task) :
    Goes Γ (q.after (taskQueue Γ) tasks r) := by
  have hnext := (ConnectionRun.next_of_step hstep).2
  have hreads : r.manager.reads.length = 1 := by
    rw [(ReadLoopAux.unread_of_effect he (ConnectionRun.effect_of_next hnext)).reads]
    exact h.reads
  have hbusy : (taskQueue Γ).isIdle r = false := by
    change (r.manager.reads.isEmpty && r.manager.writes.isEmpty) = false
    cases hr : r.manager.reads with
    | nil =>
      rw [hr] at hreads
      cases hreads
    | cons read reads => rfl
  refine ⟨hescaped, hstate, hreads, ?_, DeliveryAux.sends_snoc h.sends halone hstep,
    bounded_step h.sends.inOrder h.bounded (ConnectionRun.writeStep_of_next h.sends.queue hnext)⟩
  simp [Queued.after, Machine.Tasks.stops, h.stopped, hbusy]

/-- What is left to do: the handlers that wait, and the bytes of the writes in flight. -/
def left (q : Queued ConnectionRun Task) : ℕ ×ₗ ℕ :=
  toLex (q.tasks.length, (q.state.manager.writes.map fun w => w.size + 1 - w.sent).sum)

section step

variable {q : Queued ConnectionRun Task} (h : Goes Γ q)

include h

/-- A step of the connection manager that is no task, and posts nothing. -/
theorem step_other {e : ConnectionEvent} (he : e.isTask = false) {t : ConnectionManager}
    (hnext : ConnectionRun.next Γ q.state.manager e = some ⟨t, none⟩) (hchannels : t.channels = q.state.manager.channels) :
    q.state.step Γ e = some ⟨t, none⟩ ∧
      (serviceMachine Γ).step q (.other e) = some (q.after (taskQueue Γ) q.tasks ⟨t, none⟩) ∧
      (q.after (taskQueue Γ) q.tasks ⟨t, none⟩).tasks = q.tasks := by
  have hstep : q.state.step Γ e = some ⟨t, none⟩ := by
    rw [ConnectionRun.step, h.escaped]
    exact hnext
  have hposts : (taskQueue Γ).posts q.state ⟨t, none⟩ = [] :=
    congrArg (List.map Task.beginWriteFrame)
      (posts_eq_nil (hchannels.trans (List.append_nil _).symm) fun x hx => absurd hx List.not_mem_nil)
  refine ⟨hstep, Machine.step_other h.stopped he hstep, ?_⟩
  rw [Queued.after, hposts, List.append_nil]

/-- A write in flight that is not complete: the socket can take its next byte. -/
theorem exists_transmit {w : AsyncWrite} (hw : q.state.manager.writes = [w]) (hlt : w.sent < w.size) :
    ∃ q', (serviceMachine Γ).step q (.other (.transmit 0)) = some q' ∧ Goes Γ q' ∧ left q' < left q := by
  obtain ⟨hcurrent, hheader⟩ := h.sends.inOrder.current w (by rw [hw]; exact List.mem_singleton_self w)
  obtain ⟨b, hb⟩ : ∃ b, (w.frame.frame.sequence Γ.constants)[w.sent]? = some b := by
    refine ⟨_, List.getElem?_eq_getElem ?_⟩
    rw [Frame.length_sequence]
    exact hlt
  have hnext : ConnectionRun.next Γ q.state.manager (.transmit 0) = some ⟨{ q.state.manager with
      socket := q.state.manager.socket ++ [b], writes := [{ w with sent := w.sent + 1 }] }, none⟩ := by
    simp [ConnectionRun.next, transmit, hw, WritePathAux.nextByte_eq hcurrent hheader, hb]
  obtain ⟨hstep, hqueue, htasks⟩ := step_other h rfl hnext rfl
  refine ⟨_, hqueue, h.after (fun _ _ he => by cases he) (DeliveryAux.submitsAlone_transmit _ 0) hstep rfl h.state _, ?_⟩
  have hsize : ({ w with sent := w.sent + 1 } : AsyncWrite).size = w.size := rfl
  rw [left, left, htasks]
  simp only [Queued.after, hw, Prod.Lex.toLex_lt_toLex, List.map_cons, List.map_nil, List.sum_cons, List.sum_nil, hsize]
  exact Or.inr ⟨trivial, by omega⟩

/-- A write that has sent everything can complete. -/
theorem exists_writeDone {w : AsyncWrite} (hw : q.state.manager.writes = [w]) (hsent : w.sent = w.size) :
    ∃ q', (serviceMachine Γ).step q (.other (.writeDone 0 true)) = some q' ∧ Goes Γ q' ∧ left q' < left q := by
  have hnext : ConnectionRun.next Γ q.state.manager (.writeDone 0 true) =
      some ⟨{ q.state.manager with writes := [], currentWriteFrame := none }, none⟩ := by
    have hdone : onWriteFrame Γ true { q.state.manager with writes := q.state.manager.writes.eraseIdx 0 } =
        .ok () { q.state.manager with writes := [], currentWriteFrame := none } := by
      unfold onWriteFrame
      simp [h.sends.queue, hw]
    have hget : q.state.manager.writes[0]? = some w := by rw [hw]; rfl
    simp only [ConnectionRun.next, hget, hsent, ne_eq, not_true_eq_false, and_false, if_false, hdone]
    rfl
  obtain ⟨hstep, hqueue, htasks⟩ := step_other h rfl hnext rfl
  refine ⟨_, hqueue, h.after (fun _ _ he => by cases he) (DeliveryAux.submitsAlone_writeDone _ 0) hstep rfl h.state _, ?_⟩
  rw [left, left, htasks]
  simp only [Queued.after, hw, Prod.Lex.toLex_lt_toLex, List.map_cons, List.map_nil, List.sum_cons, List.sum_nil]
  exact Or.inr ⟨trivial, by omega⟩

/-- When no write is in flight, the next handler can run. -/
theorem runTask_of_idle (hopen : Γ.canOpen = true) (hw : q.state.manager.writes = []) {task : Task} {tasks : List Task}
    (htasks : q.tasks = task :: tasks) : ∃ q', ServesAlone Γ q .runTask ∧ (serviceMachine Γ).step q .runTask = some q' ∧
      Goes Γ q' ∧ left q' < left q := by
  obtain ⟨t, hstep, hposts, hescaped⟩ := exists_runTask hopen q.state task h.escaped
  have hnext := (ConnectionRun.next_of_step hstep).2
  have hstate : t.manager.state = .openState := by
    have hwrite := ConnectionRun.writeStep_of_next h.sends.queue hnext
    cases task with
    | beginWriteFrame fr =>
      change WriteStep Γ _ (.beginWriteFrame fr) _ at hwrite
      obtain ⟨hsubmits⟩ := hwrite
      exact (state_of_submits hsubmits).trans h.state
    | startOpenChannel =>
      change WriteStep Γ _ .startOpenChannel _ at hwrite
      obtain ⟨hsubmits⟩ := hwrite
      exact (state_of_submits hsubmits).trans h.state
  -- A handler submits one frame at most.
  have halone : SubmitsAlone Γ q.state task.event := by
    intro t' ht' _
    obtain rfl : t = t' := Option.some.inj (hstep.symm.trans ht')
    obtain ⟨frs, hfrs, hsubmission⟩ := ConnectionRun.submission_of_next hnext hescaped
    rw [hfrs, List.length_append, if_pos hw]
    exact Nat.add_le_add_left hsubmission.length_le_one _
  have hserves : ServesAlone Γ q .runTask := by
    intro e' he'
    rw [QueuedEvent.event?, htasks] at he'
    cases he'
    exact halone
  have hnoread : ∀ i bytes, task.event ≠ .readDone i bytes := by
    intro i bytes he
    cases task <;> cases he
  refine ⟨_, hserves, Machine.step_runTask h.stopped htasks hstep, h.after hnoread halone hstep hescaped hstate tasks, ?_⟩
  have hleft : (q.after (taskQueue Γ) tasks t).tasks = tasks := by rw [Queued.after, hposts, List.append_nil]
  simp only [left, hleft, htasks, Prod.Lex.toLex_lt_toLex, List.length_cons]
  exact Or.inl (Nat.lt_succ_self _)

/-- As long as something is left to do, it can be done. -/
theorem exists_step (hopen : Γ.canOpen = true) (hleft : ¬(q.tasks = [] ∧ q.state.manager.writes = [])) :
    ∃ e q', Drains e ∧ ServesAlone Γ q e ∧ (serviceMachine Γ).step q e = some q' ∧ Goes Γ q' ∧ left q' < left q := by
  rcases hw : q.state.manager.writes with _ | ⟨w, ws⟩
  · rcases htasks : q.tasks with _ | ⟨task, tasks⟩
    · exact absurd ⟨htasks, hw⟩ hleft
    · obtain ⟨q', hserves, hstep, hgoes, hlt⟩ := runTask_of_idle h hopen hw htasks
      exact ⟨.runTask, q', trivial, hserves, hstep, hgoes, hlt⟩
  · obtain ⟨-, hsingle⟩ := DeliveryAux.eq_singleton (i := 0) (w := w) h.sends.inOrder.one (by rw [hw]; rfl)
    have hle := h.bounded w (by rw [hsingle]; exact List.mem_singleton_self w)
    rcases Nat.lt_or_eq_of_le hle with hlt | heq
    · obtain ⟨q', hstep, hgoes, hless⟩ := exists_transmit h hsingle hlt
      refine ⟨.other (.transmit 0), q', trivial, fun e' he' => ?_, hstep, hgoes, hless⟩
      cases he'
      exact DeliveryAux.submitsAlone_transmit _ 0
    · obtain ⟨q', hstep, hgoes, hless⟩ := exists_writeDone h hsingle heq
      refine ⟨.other (.writeDone 0 true), q', rfl, fun e' he' => ?_, hstep, hgoes, hless⟩
      cases he'
      exact DeliveryAux.submitsAlone_writeDone _ 0

end step

/-! ### Runs -/

/-- In a run that submits frames alone. -/
theorem goes_of_run {es : List (QueuedEvent ConnectionEvent Task)} {q : Queued ConnectionRun Task}
    (h : (serviceMachine Γ).run es = some q) (halone : (serviceMachine Γ).Guarded (ServesAlone Γ) es)
    (hescaped : q.state.escaped = none) (hopen : q.state.manager.state = .openState) : Goes Γ q := by
  obtain ⟨es', hrun⟩ := exists_run h
  have hreads := reads_of_open hrun hescaped hopen
  have hstopped : q.stopped = false := goes_of_reads h (List.ne_nil_of_length_pos (by omega))
  obtain ⟨hsends, hbounded⟩ : DeliveryAux.Sends Γ q.state ∧ Bounded q.state.manager := by
    refine Machine.queued_invariant (I := fun r => DeliveryAux.Sends Γ r ∧ Bounded r.manager)
      ⟨DeliveryAux.sends_init, fun w hw => absurd hw List.not_mem_nil⟩ (fun r e r' hr hguard hstep => ?_) halone h
    exact ⟨DeliveryAux.sends_snoc hr.1 hguard hstep,
      bounded_step hr.1.inOrder hr.2 (ConnectionRun.writeStep_of_next hr.1.queue (ConnectionRun.next_of_step hstep).2)⟩
  exact ⟨hescaped, hopen, hreads, hstopped, hsends, hbounded⟩

/-- What drains the connection makes no request, and posts nothing from outside. -/
theorem requestFrames_of_drains (i : Nat) (es : List (QueuedEvent ConnectionEvent Task))
    {es' : List (QueuedEvent ConnectionEvent Task)} (h : ∀ e ∈ es', Drains e) :
    requestFrames Γ i (es ++ es') = requestFrames Γ i es ∧
      ∀ fr, .post (.beginWriteFrame fr) ∈ es ++ es' → .post (.beginWriteFrame fr) ∈ es := by
  have hnone : (es'.filterMap QueuedEvent.other?).filterMap (·.request i) = [] := by
    rw [List.filterMap_filterMap, List.filterMap_eq_nil_iff]
    intro e he
    have hdrains := h e he
    rcases e with task | _ | e
    · rfl
    · rfl
    · cases e with
      | beginRpc j method classId methodId => exact hdrains.elim
      | _ => rfl
  refine ⟨?_, fun fr hfr => ?_⟩
  · unfold requestFrames
    rw [List.filterMap_append, List.filterMap_append, hnone, List.append_nil]
  · rcases List.mem_append.mp hfr with hmem | hmem
    · exact hmem
    · exact (h _ hmem).elim

end ProgressAux

open ProgressAux ServiceAux ConnectionManager

/-- Nothing is stuck: in every run that submits each frame while no write is in flight, as long as no exception has ended it and
the connection is open, what was asked for can reach the socket, with nothing but handlers that run, bytes that are taken and
writes that complete. Then nothing waits any more, the bytes on the socket are those of the frames submitted, and among
these are the opening and all requests of each channel that is alive, in their order. -/
theorem requests_can_reach_socket (Γ : Env) (hopen : Γ.canOpen = true) {es : List (QueuedEvent ConnectionEvent Task)}
    {q : Queued ConnectionRun Task} (h : (serviceMachine Γ).run es = some q) (hescaped : q.state.escaped = none)
    (halone : (serviceMachine Γ).Guarded (ServesAlone Γ) es) (hstate : q.state.manager.state = .openState) :
    ∃ es' q', (∀ e ∈ es', Drains e) ∧ (serviceMachine Γ).run (es ++ es') = some q' ∧
      (serviceMachine Γ).Guarded (ServesAlone Γ) (es ++ es') ∧ q'.tasks = [] ∧ q'.state.manager.writes = [] ∧
      q'.state.manager.socket = q'.state.manager.submitted.flatMap (·.sequence Γ.constants) ∧
      ∀ i c, q'.state.manager.channelAt i = some c → (∀ fr, .post (.beginWriteFrame fr) ∈ es → fr.channel.toNat ≠ i) →
        ∃ fr, Γ.opening (UInt16.ofNat i) = .ok fr ∧ onChannel i q'.state.manager.submitted = fr :: requestFrames Γ i es := by
  obtain ⟨es', q', hdrains, hq', hguarded, hgoes, htasks, hwrites⟩ :=
    Machine.exists_reaching left (I := Goes Γ) (J := fun q => q.tasks = [] ∧ q.state.manager.writes = [])
      (fun q hq hleft => exists_step hq hopen hleft) h (goes_of_run h halone hescaped hstate) halone
  refine ⟨es', q', hdrains, hq', hguarded, htasks, hwrites, ?_, fun i c hc hasync => ?_⟩
  · have hall := hgoes.sends.inOrder.all hgoes.state
    rwa [hwrites, List.flatMap_nil, List.append_nil] at hall
  · obtain ⟨hrequests, hposts⟩ := requestFrames_of_drains (Γ := Γ) i es hdrains
    obtain ⟨fr, hfr, hout⟩ := requests_of_run hq' hgoes.escaped (fun fr hfr => hasync fr (hposts fr hfr)) hc
    refine ⟨fr, hfr, ?_⟩
    rw [outgoing, htasks, List.filterMap_nil, List.append_nil] at hout
    rw [hout, hrequests]

/-- The request that waits can reach the socket. -/
theorem requests_can_reach_socket_two : ∃ es' q', (serviceMachine .sample).run (requestTasks ++ es') = some q' ∧ q'.tasks = [] ∧
    q'.state.manager.writes = [] := by
  obtain ⟨q, c, hq, hescaped, -, -, hstate, -⟩ := exists_requestTasks
  obtain ⟨es', q', -, hq', -, htasks, hwrites, -⟩ :=
    requests_can_reach_socket .sample (by decide) hq hescaped servesAlone_requestTasks hstate
  exact ⟨es', q', hq', htasks, hwrites⟩

end Amqpp
