import Amqpp.Codegen.Env
import Amqpp.Connection.Writes

/-!
# Nothing is written after the connection is closed

The completion handler of a write does not look at `m_state`, but the queue it would go on with is empty between any two
steps.
-/

namespace Amqpp

namespace ClosedWritesAux

open ConnectionManager

variable {Γ : Env}

/-- Between two steps the queue is empty. -/
theorem inductive_writeQueue (Γ : Env) : (connectionMachine Γ).Inductive fun r => r.manager.writeQueue = [] :=
  ⟨rfl, fun _ _ _ hqueue hstep => (ConnectionRun.stepWrites_of_next hqueue (ConnectionRun.next_of_step hstep).2).queue⟩

/-- What a step of a run does to the write path. -/
theorem stepWrites_of_run {es : List ConnectionEvent} {e : ConnectionEvent} {s r : ConnectionRun}
    (hs : (connectionMachine Γ).run es = some s) (h : s.step Γ e = some r) : StepWrites s.manager e r.manager :=
  ConnectionRun.stepWrites_of_next (Machine.invariant_of_run _ (inductive_writeQueue Γ) hs) (ConnectionRun.next_of_step h).2

/-- A closed connection stays closed in a step. -/
theorem closed_of_step {s r : ConnectionRun} {e : ConnectionEvent} (hqueue : s.manager.writeQueue = [])
    (hclosed : s.manager.state = .closedState) (h : s.step Γ e = some r) : r.manager.state = .closedState := by
  have hstate := (ConnectionRun.stepWrites_of_next hqueue (ConnectionRun.next_of_step h).2).state
  rw [hclosed, ite_self] at hstate
  exact hstate

end ClosedWritesAux

open ClosedWritesAux

/-- In every run of the connection manager, a connection that is closed stays closed, and the step that closes it and those
after it start no write: what is outstanding after them was outstanding before, except for the write that completes. -/
theorem closed_starts_no_write (Γ : Env) {es : List ConnectionEvent} {s : ConnectionRun} (hs : (connectionMachine Γ).run es = some s) :
    (s.manager.state = .closedState → ∀ es' t, (connectionMachine Γ).run (es ++ es') = some t → t.manager.state = .closedState) ∧
    (∀ e r, s.step Γ e = some r → r.manager.state = .closedState → r.manager.writes = s.manager.outstanding e) := by
  constructor
  · intro hclosed es' t ht
    have hqueue := Machine.invariant_of_run _ (inductive_writeQueue Γ) hs
    have hkept := Machine.invariant_from _ (I := fun u => u.manager.writeQueue = [] ∧ u.manager.state = .closedState) hs
      ⟨hqueue, hclosed⟩ (fun u e u' _ hu hstep => ?_) ht
    · exact hkept.2
    · exact ⟨(inductive_writeQueue Γ).2 u e u' hu.1 hstep, closed_of_step hu.1 hu.2 hstep⟩
  · intro e r h hclosed
    refine (stepWrites_of_run hs h).writes ?_
    rw [hclosed]
    exact nofun

/-- A frame is submitted, and the read in flight fails: a second frame starts no write, and neither does the completion of
the first. -/
theorem closed_starts_no_write_heartbeat :
    ∃ s r, (connectionMachine .sample).run [.beginWriteFrame ⟨.heartbeat, 0, []⟩, .readDone 0 none] = some s ∧
      s.step .sample (.beginWriteFrame ⟨.heartbeat, 0, []⟩) = some r ∧ r.manager.writes = s.manager.writes ∧ r.manager.writes.length = 1 := by
  obtain ⟨s, hs⟩ : ∃ s, (connectionMachine .sample).run [.beginWriteFrame ⟨.heartbeat, 0, []⟩, .readDone 0 none] = some s :=
    ⟨_, rfl⟩
  obtain ⟨r, hr⟩ : ∃ r, s.step .sample (.beginWriteFrame ⟨.heartbeat, 0, []⟩) = some r := by
    cases hs
    exact ⟨_, rfl⟩
  have hwrites := (closed_starts_no_write .sample hs).2 _ r hr (by cases hs; cases hr; rfl)
  exact ⟨s, r, hs, hr, hwrites, by cases hs; cases hr; rfl⟩

end Amqpp
