import Amqpp.Lib.Machine

/-!
# Machines with a queue of tasks

Some of the events of a machine are tasks: they are posted, wait in a queue, and a loop takes them one after the other in the
order in which they were posted. The loop is over when no task waits and nothing else can come: then only what happens
outside of it goes on. `Machine.queued` is the machine with its queue. Its runs are runs of the machine (`run_of_queued`),
its states have the invariants of the machine (`queued_invariant`), as long as the loop is not over and every task can run
the queue can be emptied (`exists_drained`), and once it is over what waits stays in the queue (`tasks_of_stopped`).
-/

namespace Machine

variable {σ ε τ : Type}

/-- How a machine is served by a queue. -/
structure Tasks (σ ε τ : Type) where
  /-- The event of a task that runs. -/
  event : τ → ε
  /-- The events that happen in their turn only. -/
  isTask : ε → Bool
  isTask_event : ∀ task, isTask (event task) = true
  /-- The events that happen outside of the loop. -/
  isOutside : ε → Bool
  /-- Without a task the loop has nothing to wait for. -/
  isIdle : σ → Bool
  /-- Whether a task can be posted from outside. -/
  accepts : σ → τ → Bool
  /-- The tasks that a step posts itself. -/
  posts : σ → σ → List τ

/-- A state with the tasks that wait, and whether the loop is over. -/
structure Queued (σ τ : Type) where
  state : σ
  tasks : List τ
  stopped : Bool

/-- The loop was over, or is now. -/
def Tasks.stops (T : Tasks σ ε τ) (stopped : Bool) (tasks : List τ) (t : σ) : Bool := stopped || (tasks.isEmpty && T.isIdle t)

/-- After a step of the machine: what it posts goes to the end of the queue. -/
def Queued.after (T : Tasks σ ε τ) (q : Queued σ τ) (tasks : List τ) (t : σ) : Queued σ τ where
  state := t
  tasks := tasks ++ T.posts q.state t
  stopped := T.stops q.stopped (tasks ++ T.posts q.state t) t

/-- What happens next: a task is posted, the first one runs, or something that is no task happens. -/
inductive QueuedEvent (ε τ : Type) where
  | post (task : τ)
  | runTask
  | other (e : ε)

/-- The event of the machine, if it is no task. -/
def QueuedEvent.other? : QueuedEvent ε τ → Option ε
  | other e => some e
  | _ => none

/-- The machine with its queue. -/
def queued (M : Machine σ ε) (T : Tasks σ ε τ) : Machine (Queued σ τ) (QueuedEvent ε τ) where
  init := ⟨M.init, [], T.stops false [] M.init⟩
  step q e :=
    match e with
    | .post task => if T.accepts q.state task then some { q with tasks := q.tasks ++ [task] } else none
    | .runTask =>
      if q.stopped then none
      else
        match q.tasks with
        | [] => none
        | task :: tasks => (M.step q.state (T.event task)).map (q.after T tasks)
    | .other e =>
      if T.isTask e || (q.stopped && !T.isOutside e) then none else (M.step q.state e).map (q.after T q.tasks)

/-- The event that the machine takes. -/
def QueuedEvent.event? (T : Tasks σ ε τ) (q : Queued σ τ) : QueuedEvent ε τ → Option ε
  | post _ => none
  | runTask => q.tasks.head?.map T.event
  | other e => some e

variable {M : Machine σ ε} {T : Tasks σ ε τ}

/-- What a step with the queue does. -/
inductive QueuedStep (M : Machine σ ε) (T : Tasks σ ε τ) (q : Queued σ τ) : QueuedEvent ε τ → Queued σ τ → Prop where
  | post {task : τ} (h : T.accepts q.state task = true) : QueuedStep M T q (.post task) { q with tasks := q.tasks ++ [task] }
  | runTask {task : τ} {tasks : List τ} {t : σ} (hgoes : q.stopped = false) (hq : q.tasks = task :: tasks)
      (h : M.step q.state (T.event task) = some t) : QueuedStep M T q .runTask (q.after T tasks t)
  | other {e : ε} {t : σ} (hgoes : q.stopped = true → T.isOutside e = true) (he : T.isTask e = false)
      (h : M.step q.state e = some t) : QueuedStep M T q (.other e) (q.after T q.tasks t)

theorem queuedStep_of_step {q q' : Queued σ τ} {e : QueuedEvent ε τ} (h : (M.queued T).step q e = some q') :
    QueuedStep M T q e q' := by
  cases e with
  | post task =>
    simp only [queued] at h
    split at h
    · rename_i haccepts
      cases h
      exact .post haccepts
    · cases h
  | runTask =>
    simp only [queued] at h
    split at h
    · cases h
    · rename_i hgoes
      split at h
      · cases h
      · rename_i hq
        obtain ⟨t, ht, rfl⟩ := Option.map_eq_some_iff.mp h
        exact .runTask (Bool.not_eq_true _ ▸ hgoes) hq ht
  | other e =>
    simp only [queued] at h
    split at h
    · cases h
    · rename_i he
      obtain ⟨htask, hgoes⟩ := not_or.mp (Bool.or_eq_true _ _ ▸ he)
      obtain ⟨t, ht, rfl⟩ := Option.map_eq_some_iff.mp h
      refine .other (fun hstopped => ?_) (Bool.not_eq_true _ ▸ htask) ht
      simpa [hstopped] using hgoes

theorem step_runTask {q : Queued σ τ} {task : τ} {tasks : List τ} {t : σ} (hgoes : q.stopped = false)
    (hq : q.tasks = task :: tasks) (h : M.step q.state (T.event task) = some t) :
    (M.queued T).step q .runTask = some (q.after T tasks t) := by
  simp [queued, hgoes, hq, h]

theorem step_other {q : Queued σ τ} {e : ε} {t : σ} (hgoes : q.stopped = false) (he : T.isTask e = false)
    (h : M.step q.state e = some t) : (M.queued T).step q (.other e) = some (q.after T q.tasks t) := by
  simp [queued, hgoes, he, h]

/-- A run with the queue is a run of the machine. What is no task happens in the order given. -/
theorem run_of_queued {es : List (QueuedEvent ε τ)} : ∀ {q : Queued σ τ}, (M.queued T).run es = some q →
    ∃ es', M.run es' = some q.state ∧ es'.filter (!T.isTask ·) = es.filterMap QueuedEvent.other? := by
  induction es using List.reverseRecOn with
  | nil =>
    intro q h
    cases h
    exact ⟨[], rfl, rfl⟩
  | append_singleton es e ih =>
    intro q h
    obtain ⟨p, hp, hstep⟩ := (M.queued T).run_snoc_eq_some.mp h
    obtain ⟨es', hrun, hother⟩ := ih hp
    rw [List.filterMap_append, ← hother]
    cases queuedStep_of_step hstep with
    | post _ => exact ⟨es', hrun, (List.append_nil _).symm⟩
    | @runTask task tasks t _ _ ht =>
      refine ⟨es' ++ [T.event task], M.run_snoc_eq_some.mpr ⟨_, hrun, ht⟩, ?_⟩
      simp [T.isTask_event, QueuedEvent.other?]
    | @other e t _ he ht =>
      refine ⟨es' ++ [e], M.run_snoc_eq_some.mpr ⟨_, hrun, ht⟩, ?_⟩
      simp [he, QueuedEvent.other?]

/-- What guarded steps of the machine keep holds in a run with the queue whose steps of the machine meet the guard. -/
theorem queued_invariant {G : σ → ε → Prop} {I : σ → Prop} (h0 : I M.init)
    (hstep : ∀ s e s', I s → G s e → M.step s e = some s' → I s') {es : List (QueuedEvent ε τ)} {q : Queued σ τ}
    (hg : (M.queued T).Guarded (fun q e => ∀ e', e.event? T q = some e' → G q.state e') es) (h : (M.queued T).run es = some q) :
    I q.state := by
  refine Guarded.invariant (I := fun q => I q.state) h0 ?_ hg h
  rintro q e q' hq hguard hqstep
  cases queuedStep_of_step hqstep with
  | post _ => exact hq
  | @runTask task _ _ _ htasks ht => exact hstep _ (T.event task) _ hq (hguard _ (by rw [QueuedEvent.event?, htasks]; rfl)) ht
  | @other e _ _ _ ht => exact hstep _ e _ hq (hguard _ rfl) ht

/-- Where every task can run and posts nothing, the queue can be emptied, as long as the loop is not over: its tasks run, and
nothing else happens. -/
theorem exists_drained {I : σ → Prop}
    (hstep : ∀ s task, I s → ∃ t, M.step s (T.event task) = some t ∧ T.posts s t = [] ∧ I t) :
    ∀ {tasks : List τ} {es : List (QueuedEvent ε τ)} {q : Queued σ τ}, (M.queued T).run es = some q → q.tasks = tasks →
      (tasks ≠ [] → q.stopped = false) → I q.state →
      ∃ q', (M.queued T).run (es ++ List.replicate tasks.length .runTask) = some q' ∧ q'.tasks = [] ∧ I q'.state := by
  intro tasks
  induction tasks with
  | nil =>
    intro es q h htasks _ hq
    exact ⟨q, by rwa [List.length_nil, List.replicate_zero, List.append_nil], htasks, hq⟩
  | cons task tasks ih =>
    intro es q h htasks hgoes hq
    obtain ⟨t, ht, hposts, hI⟩ := hstep q.state task hq
    have hstopped : q.stopped = false := hgoes (List.cons_ne_nil _ _)
    have hrun : (M.queued T).run (es ++ [.runTask]) = some (q.after T tasks t) :=
      (M.queued T).run_snoc_eq_some.mpr ⟨q, h, step_runTask hstopped htasks ht⟩
    have hleft : (q.after T tasks t).tasks = tasks := by rw [Queued.after, hposts, List.append_nil]
    -- While a task waits the loop goes on.
    have hgoes' : tasks ≠ [] → (q.after T tasks t).stopped = false := by
      intro hne
      simp [Queued.after, Tasks.stops, hstopped, hne]
    obtain ⟨q', hq', hempty, hI'⟩ := ih hrun hleft hgoes' hI
    refine ⟨q', ?_, hempty, hI'⟩
    rwa [List.append_assoc, List.singleton_append, ← List.replicate_succ] at hq'

/-! ## When the loop is over -/

/-- Once the loop is over, it does not start again. -/
theorem stopped_of_step {q q' : Queued σ τ} {e : QueuedEvent ε τ} (hq : q.stopped = true) (h : (M.queued T).step q e = some q') :
    q'.stopped = true := by
  cases queuedStep_of_step h with
  | post _ => exact hq
  | runTask hgoes _ _ => exact absurd (hgoes.symm.trans hq) Bool.false_ne_true
  | other _ _ _ =>
    rw [Queued.after, Tasks.stops, hq]
    rfl

/-- The loop is over only when it has nothing to wait for, and what happens outside of it does not change that. -/
theorem isIdle_of_stopped (hidle : ∀ s e t, T.isOutside e = true → T.isIdle s = true → M.step s e = some t → T.isIdle t = true)
    {es : List (QueuedEvent ε τ)} {q : Queued σ τ} (h : (M.queued T).run es = some q) (hstopped : q.stopped = true) :
    T.isIdle q.state = true := by
  have hstops : ∀ (tasks : List τ) (t : σ), T.stops false tasks t = true → T.isIdle t = true := by
    intro tasks t hstops
    exact (Bool.and_eq_true _ _ ▸ hstops : tasks.isEmpty = true ∧ T.isIdle t = true).2
  have hinvariant : ∀ q : Queued σ τ, (M.queued T).run es = some q → q.stopped = true → T.isIdle q.state = true := by
    intro q h
    refine Machine.invariant_of_run (M.queued T) (I := fun q => q.stopped = true → T.isIdle q.state = true)
      ⟨hstops [] M.init, ?_⟩ h
    rintro q e q' hq hqstep hstopped
    cases queuedStep_of_step hqstep with
    | post _ => exact hq hstopped
    | runTask hgoes _ _ =>
      rw [Queued.after, hgoes] at hstopped
      exact hstops _ _ hstopped
    | other houtside _ ht =>
      rcases hbefore : q.stopped with _ | _
      · rw [Queued.after, hbefore] at hstopped
        exact hstops _ _ hstopped
      · exact hidle _ _ _ (houtside hbefore) (hq hbefore) ht
  exact hinvariant q h hstopped

/-- Nothing but what happens outside of the loop changes the state then, and what waits stays in the queue. -/
theorem tasks_of_stopped {R : σ → σ → Prop} [Std.Refl R] [IsTrans σ R]
    (hstep : ∀ s e t, T.isOutside e = true → M.step s e = some t → R s t) {pre es : List (QueuedEvent ε τ)} {q q' : Queued σ τ}
    (hq : (M.queued T).run pre = some q) (hstopped : q.stopped = true) (hq' : (M.queued T).run (pre ++ es) = some q') :
    q'.stopped = true ∧ R q.state q'.state ∧ q.tasks <+: q'.tasks := by
  refine Machine.invariant_from (I := fun u => u.stopped = true ∧ R q.state u.state ∧ q.tasks <+: u.tasks) (M.queued T) hq
    ⟨hstopped, refl_of R _, List.prefix_refl _⟩ ?_ hq'
  rintro u e u' - ⟨hu, hR, htasks⟩ hustep
  refine ⟨stopped_of_step hu hustep, ?_⟩
  cases queuedStep_of_step hustep with
  | post _ => exact ⟨hR, htasks.trans (List.prefix_append _ _)⟩
  | runTask hgoes _ _ => exact absurd (hgoes.symm.trans hu) Bool.false_ne_true
  | other houtside _ ht => exact ⟨trans_of R hR (hstep _ _ _ (houtside hu) ht), htasks.trans (List.prefix_append _ _)⟩

end Machine
