import Amqpp.Channel.History
import Amqpp.Connection.Projection
import Amqpp.Theorems.ChannelPromises

/-!
# Channels side by side

Every run of a connection is, for the channel at an index, a run of that channel on its own. So what holds of a channel
alone holds of it among the others: what it posts are the requests of its users.
-/

namespace Amqpp

/-- The frame that a call posts: that of a request whose method can be encoded. -/
def ChannelEvent.posts (Γ : Env) (channelId : UInt16) : ChannelEvent → Option Frame
  | beginRpc method _ _ => (createFromMethod Γ.memory channelId method).toOption
  | _ => none

/-- The frame of a call of `process_frame`. -/
def ChannelEvent.frame? : ChannelEvent → Option Frame
  | processFrame fr => some fr
  | _ => none

/-- A frame came for a promise: it holds something, and not what its destructor left. -/
def ChannelImpl.isAnswered {α : Type} : Promise Exception α → Bool
  | .unset | .exception .brokenPromise => false
  | .value _ | .exception _ => true

/-- How many promises frames came for. -/
def ChannelImpl.answered (s : ChannelImpl) : Nat :=
  (if isAnswered s.channelOpenedPromise then 1 else 0) + s.rpcPromises.countP isAnswered

/-- The calls on the channel at an index in a step: those of the manager, or the request of a user. -/
def channelCalls (i : Nat) (s : ConnectionRun) (e : ConnectionEvent) (t : ConnectionRun) : List ChannelEvent :=
  (t.manager.channelEvents i).drop (s.manager.channelEvents i).length ++ (e.request i).toList

/-- The history of the channel at an index in a run. -/
def channelHistory (Γ : Env) (i : Nat) (es : List ConnectionEvent) : List ChannelEvent :=
  (connectionMachine Γ).outputs (channelCalls i) es

namespace IsolationAux

open ChannelImpl ChannelPromisesAux

variable {Γ : Env} {channelId : UInt16}

/-! ### One call -/

/-- One promise more is answered, and nothing is posted. -/
structure Answers (s t : ChannelImpl) : Prop where
  answered : t.answered = s.answered + 1
  posted : t.posted = s.posted
  length : t.rpcPromises.length = s.rpcPromises.length

theorem isAnswered_openedPromise (fr : Frame) : isAnswered (Γ.openedPromise (some fr)) = true := by
  unfold Env.openedPromise
  simp only
  split <;> rfl

theorem isAnswered_rpcPromise (ids : UInt16 × UInt16) (fr : Frame) : isAnswered (Γ.rpcPromise (ids, .answered fr)) = true := by
  unfold Env.rpcPromise
  simp only
  split <;> rfl

/-- The handler of a channel that is armed answers its promise, whatever the frame. -/
theorem answers_runContinuation {s : ChannelImpl} (hs : Handles channelId s) (ha : Armed s) (fr : Frame) :
    (runContinuation Γ fr s).Ends (Answers s) := by
  obtain ⟨p, hp, hi⟩ := hs.awaits
  have hunset := (armed_iff hp).mp ha
  cases hc : s.continuation with
  | processOpen =>
    rw [hc] at hp
    cases hp
    have hopened : s.channelOpenedPromise = .unset := Promise.eq_unset hunset
    have hfalse : isAnswered s.channelOpenedPromise = false := by
      rw [hopened]
      rfl
    refine (runContinuation_processOpen hc hopened fr).imp ?_
    rintro _ rfl
    refine ⟨?_, rfl, rfl⟩
    simp only [answered, isAnswered_openedPromise, hfalse, Bool.false_eq_true, if_true, if_false]
    omega
  | rpcHandler classId methodId promise =>
    rw [hc] at hp
    cases hp
    have hlt := hi promise rfl
    have hget := getElem?_of_unset_rpc hunset hlt
    have hfalse : isAnswered s.rpcPromises[promise] = false := by
      rw [Option.some.inj ((List.getElem?_eq_getElem hlt).symm.trans hget)]
      rfl
    refine (runContinuation_rpcHandler hc hget fr).imp ?_
    rintro _ rfl
    refine ⟨?_, rfl, List.length_set⟩
    simp only [answered, List.countP_set hlt, hfalse, isAnswered_rpcPromise, Bool.false_eq_true, if_true, if_false]
    omega
  | closedHandler =>
    rw [hc] at hp
    cases hp

/-- No frame came for a promise that is destroyed. -/
theorem isAnswered_destroy {α : Type} (p : Promise Exception α) : isAnswered (p.destroy .brokenPromise) = isAnswered p := by
  cases p with
  | unset => rfl
  | value a => rfl
  | exception e => rfl

theorem countP_modify {α : Type} {p : α → Bool} {f : α → α} (h : ∀ a, p (f a) = p a) (l : List α) (i : Nat) :
    (l.modify i f).countP p = l.countP p := by
  induction l generalizing i with
  | nil => cases i <;> rfl
  | cons a l ih =>
    cases i with
    | zero => simp [List.countP_cons, h]
    | succ i => simp [List.countP_cons, ih]

/-- Nor for that of a handler that is replaced. -/
theorem countP_dropContinuation (s : ChannelImpl) : s.dropContinuation.rpcPromises.countP isAnswered = s.rpcPromises.countP isAnswered := by
  rcases s.dropContinuation_cases with heq | ⟨i, -, hrpc⟩
  · rw [heq]
  · rw [hrpc, countP_modify isAnswered_destroy]

/-- A frame for a channel that is armed answers its promise, and posts nothing. -/
theorem answers_processFrame {s : ChannelImpl} (hs : Handles channelId s) (ha : Armed s) {fr : Frame} (hch : fr.channel = s.channelId) :
    (processFrame Γ fr s).Ends (Answers s) := by
  obtain ⟨p, hp, hi⟩ := hs.awaits
  exact processFrame_ends hch hp ((armed_iff hp).mp ha) hi (answers_runContinuation hs ha fr)

/-! ### A run -/

/-- What a channel has posted and answered after a run of its own. -/
structure Accounts (Γ : Env) (channelId : UInt16) (ces : List ChannelEvent) (s : ChannelRun) : Prop where
  handles : Handles channelId s.channel
  posted : s.channel.posted = ces.filterMap (·.posts Γ channelId)
  promises : s.channel.rpcPromises.length = s.channel.posted.length
  answered : .promiseAlreadySatisfied ∉ s.escaped → s.channel.answered = (ces.filterMap ChannelEvent.frame?).length

theorem escaped_of_after {α : Type} {s s' : ChannelRun} {escapes : Bool} {o : Outcome Exception ChannelImpl α}
    (h : s.after escapes o = some s') {e : Exception} (he : e ∉ s'.escaped) : e ∉ s.escaped := by
  intro hmem
  cases o with
  | ok a c =>
    cases h
    exact he hmem
  | throws e' c =>
    cases h
    cases escapes with
    | true => exact he (List.mem_append_left _ hmem)
    | false => exact he hmem
  | undefined => cases h

/-- A call that posts nothing, answers nothing and is no frame. -/
theorem Accounts.of_same {ces : List ChannelEvent} {e : ChannelEvent} {s s' : ChannelRun} (hs : Accounts Γ channelId ces s)
    (hhandles : Handles channelId s'.channel) (hposted : s'.channel.posted = s.channel.posted)
    (hpromises : s'.channel.rpcPromises = s.channel.rpcPromises)
    (hopened : s'.channel.channelOpenedPromise = s.channel.channelOpenedPromise)
    (hposts : e.posts Γ channelId = none) (hescaped : .promiseAlreadySatisfied ∉ s'.escaped →
      .promiseAlreadySatisfied ∉ s.escaped ∧ e.frame? = none) : Accounts Γ channelId (ces ++ [e]) s' := by
  refine ⟨hhandles, ?_, by rw [hpromises, hposted, hs.promises], fun hesc => ?_⟩
  · simp [hposted, hs.posted, hposts]
  · obtain ⟨hesc', hframe⟩ := hescaped hesc
    have hanswered := hs.answered hesc'
    simp only [ChannelImpl.answered] at hanswered
    simp [ChannelImpl.answered, hpromises, hopened, hanswered, hframe]

/-- The accounts after one event more. -/
theorem Accounts.snoc {ces : List ChannelEvent} {e : ChannelEvent} {s s' : ChannelRun} (hs : Accounts Γ channelId ces s)
    (h : s.step Γ e = some s') : Accounts Γ channelId (ces ++ [e]) s' := by
  cases e with
  | processFrame fr =>
    obtain ⟨hch, hafter⟩ := s.step_processFrame Γ h
    by_cases ha : Armed s.channel
    · obtain ⟨hs', -, -⟩ := step_of_armed hs.handles ha h
      have hanswers := ChannelRun.after_leaves hafter (answers_processFrame hs.handles ha hch).leaves
      refine ⟨hs', ?_, ?_, fun hesc => ?_⟩
      · simp [hanswers.posted, hs.posted, ChannelEvent.posts]
      · rw [hanswers.length, hanswers.posted, hs.promises]
      · rw [hanswers.answered, hs.answered (escaped_of_after hafter hesc)]
        simp [ChannelEvent.frame?]
    · -- The promise is satisfied already: the channel stays as it is, and that escapes.
      obtain ⟨hs', -, hmem⟩ := step_of_fired hs.handles ha h
      obtain ⟨p, hp, -⟩ := hs.handles.awaits
      rw [armed_iff hp, Bool.not_eq_false] at ha
      rw [processFrame_of_satisfied Γ hch hp ha] at hafter
      cases hafter
      exact hs.of_same hs' rfl rfl rfl rfl fun hesc => absurd hmem hesc
  | beginRpc method classId methodId =>
    obtain ⟨hs', -, -⟩ := step_other hs.handles (e := .beginRpc method classId methodId) nofun h
    change s.after false (beginRpc Γ method classId methodId s.channel) = some s' at h
    rcases hframe : createFromMethod Γ.memory s.channel.channelId method with e | fr
    · rw [beginRpc_of_error Γ hs.handles.not_ready hframe] at h
      cases h
      have hposts : (ChannelEvent.beginRpc method classId methodId).posts Γ channelId = none := by
        rw [ChannelEvent.posts, ← hs.handles.channelId, hframe]
        rfl
      exact hs.of_same hs' rfl rfl rfl hposts fun hesc => ⟨hesc, rfl⟩
    · rw [beginRpc_of_ok Γ hs.handles.not_ready hs.handles.lt hframe] at h
      cases h
      have hposts : (ChannelEvent.beginRpc method classId methodId).posts Γ channelId = some fr := by
        rw [ChannelEvent.posts, ← hs.handles.channelId, hframe]
        rfl
      refine ⟨hs', ?_, ?_, fun hesc => ?_⟩
      · simp [hs.posted, hposts]
      · simp [hs.promises]
      · have hanswered := hs.answered hesc
        simp only [ChannelImpl.answered] at hanswered
        have hunset : isAnswered (Promise.unset : Promise Exception Method) = false := rfl
        simp [ChannelImpl.answered, countP_dropContinuation, hanswered, ChannelEvent.frame?, hunset]
  | closeAsync =>
    obtain ⟨hs', hesc', -⟩ := step_other hs.handles (e := .closeAsync) nofun h
    obtain ⟨p, hp⟩ := ChannelRun.after_leaves h (ConnectionManager.closeAsync_leaves s.channel)
    refine hs.of_same hs' ?_ ?_ ?_ rfl fun hesc => ⟨hesc' ▸ hesc, rfl⟩
    · rw [hp]
    · rw [hp]
    · rw [hp]

theorem accounts_of_run {ces : List ChannelEvent} :
    ∀ {s : ChannelRun}, (channelMachine Γ channelId).run ces = some s → Accounts Γ channelId ces s := by
  induction ces using List.reverseRecOn with
  | nil =>
    intro s h
    cases h
    exact ⟨handles_create channelId, rfl, rfl, fun _ => rfl⟩
  | append_singleton ces e ih =>
    intro s' h
    obtain ⟨s, hrun, hstep⟩ := Machine.run_snoc_eq_some _ |>.mp h
    exact (ih hrun).snoc hstep

/-! ### The channel at an index -/

open ConnectionManager

/-- The channel at an index is reached by its history: the calls of the manager on it and the requests of its users. -/
structure Projects (Γ : Env) (i : Nat) (es : List ConnectionEvent) (r : ConnectionRun) : Prop where
  fresh : r.manager.channels.length ≤ i → channelHistory Γ i es = []
  channel : ∀ c, r.manager.channelAt i = some c → ReachedBy Γ i (r.escaped = none) (channelHistory Γ i es) c
  calls : (channelHistory Γ i es).filter (!·.isRequest) = r.manager.channelEvents i
  requests : (channelHistory Γ i es).filter (·.isRequest) = es.filterMap (·.request i)

/-- Calls that are no requests. -/
theorem filter_of_calls {i : Nat} {m : ConnectionManager} {old ces : List ChannelEvent} (h : m.channelEvents i = old ++ ces) :
    ces.filter (!·.isRequest) = ces ∧ ces.filter (·.isRequest) = [] := by
  have hnone : ∀ e ∈ ces, e.isRequest = false := fun e he =>
    isRequest_of_mem_channelEvents (s := m) (i := i) (by rw [h]; exact List.mem_append_right _ he)
  exact ⟨List.filter_eq_self.mpr fun e he => by rw [hnone e he]; rfl,
    List.filter_eq_nil_iff.mpr fun e he => by rw [hnone e he]; exact Bool.false_ne_true⟩

/-- What is asked of a channel is a request. -/
theorem isRequest_of_request {i : Nat} {e : ConnectionEvent} {ce : ChannelEvent} (h : e.request i = some ce) : ce.isRequest = true := by
  cases e with
  | beginRpc j method classId methodId =>
    simp only [ConnectionEvent.request] at h
    split at h
    · cases h
      rfl
    · cases h
  | _ => cases h

section step

variable {i : Nat} {es : List ConnectionEvent} {e : ConnectionEvent} {s r : ConnectionRun}
  (hrun : (connectionMachine Γ).run es = some s) (hstep : s.step Γ e = some r) {ces : List ChannelEvent}
  (hces : r.manager.channelEvents i = s.manager.channelEvents i ++ ces)

include hrun hstep hces

/-- A step adds its calls to the history. -/
theorem channelHistory_snoc : channelHistory Γ i (es ++ [e]) = channelHistory Γ i es ++ (ces ++ (e.request i).toList) := by
  rw [channelHistory, Machine.outputs_snoc _ _ hrun hstep, channelCalls, hces, List.drop_left]
  rfl

/-- The calls and the requests of a history, after a step more. -/
theorem Projects.snoc (hs : Projects Γ i es s) (hfresh : r.manager.channels.length ≤ i → ces = [] ∧ e.request i = none)
    (hlength : s.manager.channels.length ≤ r.manager.channels.length)
    (hchannel : ∀ d, r.manager.channelAt i = some d →
      ReachedBy Γ i (r.escaped = none) (channelHistory Γ i es ++ (ces ++ (e.request i).toList)) d) : Projects Γ i (es ++ [e]) r := by
  have hhistory := channelHistory_snoc hrun hstep hces
  obtain ⟨hcalls, hrpcs⟩ := filter_of_calls hces
  have hrequest : (e.request i).toList.filter (!·.isRequest) = [] ∧
      (e.request i).toList.filter (·.isRequest) = (e.request i).toList := by
    cases hr : e.request i with
    | none => exact ⟨rfl, rfl⟩
    | some ce => simp [isRequest_of_request hr]
  refine ⟨fun hle => ?_, fun d hd => hhistory ▸ hchannel d hd, ?_, ?_⟩
  · obtain ⟨rfl, hnone⟩ := hfresh hle
    rw [hhistory, hs.fresh (Nat.le_trans hlength hle), hnone]
    rfl
  · rw [hhistory, List.filter_append, List.filter_append, hs.calls, hcalls, hrequest.1, List.append_nil, hces]
  · rw [hhistory, List.filter_append, List.filter_append, hs.requests, hrpcs, hrequest.2, List.nil_append, List.filterMap_append]
    cases hr : e.request i with
    | none => simp [hr]
    | some ce => simp [hr]

end step

theorem projects_snoc {i : Nat} {es : List ConnectionEvent} {e : ConnectionEvent} {s r : ConnectionRun} (hs : Projects Γ i es s)
    (hrun : (connectionMachine Γ).run es = some s) (hstep : s.step Γ e = some r) : Projects Γ i (es ++ [e]) r := by
  obtain ⟨hescaped, hnext⟩ := ConnectionRun.next_of_step hstep
  have hlength := (Evolves.of_effect (ConnectionRun.effect_of_next hnext)).length
  have hfollows : Follows Γ i (r.escaped = none) s.manager r.manager → e.request i = none → Projects Γ i (es ++ [e]) r := by
    intro hfollows hnone
    obtain ⟨ces, hces, hchannel⟩ := hfollows.channel
    refine hs.snoc hrun hstep hces (fun hle => ⟨?_, hnone⟩) hlength fun d hd => ?_
    · have hdead : s.manager.live i = none := by rw [live, List.getElem?_eq_none (Nat.le_trans hlength hle)]; rfl
      exact List.append_right_eq_self.mp (hces.symm.trans (hfollows.dead hdead).2)
    · obtain ⟨c, hc, hreached⟩ := hchannel d hd
      rw [hnone, Option.toList_none, List.append_nil]
      exact hreached _ ((hs.channel c hc).mono fun _ => hescaped)
  by_cases hopen : e = .startOpenChannel
  · subst hopen
    have hopening : Opening Γ s.manager r := opening_runStartOpenChannel hnext
    by_cases hi : i < s.manager.channels.length
    · exact hfollows (hopening.follows hi) rfl
    · -- The channel is new: it has seen nothing.
      obtain ⟨hevents, hnew⟩ := hopening.fresh (Nat.le_of_not_lt hi)
      refine hs.snoc hrun hstep (hevents.trans (List.append_nil _).symm) (fun _ => ⟨rfl, rfl⟩) hlength fun d hd => ?_
      rw [hnew d hd, hs.fresh (Nat.le_of_not_lt hi)]
      exact .nil
  · rcases he : e.request i with _ | ce
    · exact hfollows (follows_of_next hnext he hopen) he
    · -- A user sends a request on the channel.
      cases e with
      | beginRpc j method classId methodId =>
        by_cases hj : j = i
        · subst hj
          obtain ⟨hesc, hevents, c, d, hc, hd, hreached⟩ := request_of_next hnext
          have hlt := lt_of_live (channelAt_eq_some.mp hd)
          have hrequest : (ConnectionEvent.beginRpc j method classId methodId).request j = some (.beginRpc method classId methodId) :=
            if_pos rfl
          refine hs.snoc hrun hstep (hevents.trans (List.append_nil _).symm) (fun hle => absurd hlt (Nat.not_lt.mpr hle)) hlength
            fun d' hd' => ?_
          obtain rfl : d = d' := Option.some.inj (hd.symm.trans hd')
          rw [hrequest]
          exact (hreached _ ((hs.channel c hc).mono fun _ => hescaped)).mono fun _ => trivial
        · simp [ConnectionEvent.request, hj] at he
      | _ => cases he

theorem projects_of_run {i : Nat} {es : List ConnectionEvent} :
    ∀ {r : ConnectionRun}, (connectionMachine Γ).run es = some r → Projects Γ i es r := by
  induction es using List.reverseRecOn with
  | nil =>
    intro r h
    cases h
    refine ⟨fun _ => rfl, fun c hc => ?_, rfl, rfl⟩
    obtain rfl : i = 0 := Nat.lt_one_iff.mp (lt_of_live (channelAt_eq_some.mp hc))
    cases hc
  | append_singleton es e ih =>
    intro r h
    obtain ⟨s, hs, hstep⟩ := Machine.run_snoc_eq_some _ |>.mp h
    exact projects_snoc (ih hs) hs hstep

/-- The frames delivered are those of the calls. -/
theorem delivered_eq (i : Nat) (s : ConnectionManager) : s.delivered i = (s.channelEvents i).filterMap ChannelEvent.frame? := by
  unfold delivered channelEvents
  rw [List.filterMap_filterMap]
  refine List.filterMap_congr fun call _ => ?_
  cases call with
  | processFrame j fr =>
    by_cases hj : j = i
    · simp [Call.deliveredTo, Call.channelEvent, hj, ChannelEvent.frame?]
    · simp [Call.deliveredTo, Call.channelEvent, hj]
  | closeAsync j =>
    by_cases hj : j = i
    · simp [Call.deliveredTo, Call.channelEvent, hj, ChannelEvent.frame?]
    · simp [Call.deliveredTo, Call.channelEvent, hj]
  | beginWriteFrame fr => rfl
  | handleDeadChannelFrame fr => rfl

/-- Requests deliver no frames. -/
theorem filterMap_frame_filter (ces : List ChannelEvent) :
    (ces.filter (!·.isRequest)).filterMap ChannelEvent.frame? = ces.filterMap ChannelEvent.frame? := by
  rw [List.filterMap_filter]
  refine List.filterMap_congr fun e _ => ?_
  cases e <;> rfl

/-- What a channel has posted are the frames of the requests on it. -/
theorem posted_of_run {es : List ConnectionEvent} {r : ConnectionRun} (h : (connectionMachine Γ).run es = some r) {i : Nat}
    {c : ChannelImpl} (hc : r.manager.channelAt i = some c) :
    c.posted = (es.filterMap (·.request i)).filterMap (·.posts Γ (UInt16.ofNat i)) := by
  obtain ⟨escaped, hrun, -⟩ := (projects_of_run h).channel c hc
  have hposted : c.posted = (channelHistory Γ i es).filterMap (·.posts Γ (UInt16.ofNat i)) := (accounts_of_run hrun).posted
  rw [hposted, ← (projects_of_run h).requests, List.filterMap_filter]
  refine List.filterMap_congr fun e _ => ?_
  cases e with
  | beginRpc method classId methodId => rfl
  | processFrame fr => rfl
  | closeAsync => rfl

/-- A channel is opened, the broker says `channel.open_ok`, and a user sends a request. -/
def requestRun : List ConnectionEvent :=
  [.startOpenChannel, .readDone 0 (some [1, 0, 1, 0, 0, 0, 8, 0]), .readDone 0 (some [20, 0, 11, 0, 0, 0, 0, 206]),
    .beginRpc 1 (.create EnvSample.exchange EnvSample.exchangeDeclare) 40 11]

theorem exists_requestRun : ∃ r c, (connectionMachine .sample).run requestRun = some r ∧ r.manager.channelAt 1 = some c ∧
    r.escaped = none := by
  have hstate : ((connectionMachine .sample).run requestRun).map (fun r =>
      ((r.manager.channelAt 1).isSome, r.escaped.isNone)) = some (true, true) := by decide +kernel
  obtain ⟨r, hr, hstate⟩ := Option.map_eq_some_iff.mp hstate
  obtain ⟨hsome, hnone⟩ := Prod.mk.injEq _ _ _ _ |>.mp hstate
  obtain ⟨c, hc⟩ := Option.isSome_iff_exists.mp hsome
  exact ⟨r, c, hr, hc, Option.isNone_iff_eq_none.mp hnone⟩

end IsolationAux

open IsolationAux ConnectionManager ChannelImpl

/-- Every run of a connection projects to a run of each channel that is alive in it: the channel at an index is in the state
that it reaches on its own by the frames and the `close_async` calls that the manager made on it, in their order, and by the
requests of its users. As long as no exception has ended the run, nothing but connection exceptions has left its
`process_frame`. -/
theorem channel_projects (Γ : Env) {es : List ConnectionEvent} {r : ConnectionRun} (h : (connectionMachine Γ).run es = some r)
    {i : Nat} {c : ChannelImpl} (hc : r.manager.channelAt i = some c) :
    ∃ ces escaped, (channelMachine Γ (UInt16.ofNat i)).run ces = some ⟨c, escaped⟩ ∧
      (r.escaped = none → ∀ e ∈ escaped, e = .connectionException) ∧
      ces.filter (!·.isRequest) = r.manager.channelEvents i ∧ ces.filter (·.isRequest) = es.filterMap (·.request i) := by
  have hprojects := projects_of_run (i := i) h
  obtain ⟨escaped, hrun, hescaped⟩ := hprojects.channel c hc
  exact ⟨channelHistory Γ i es, escaped, hrun, hescaped, hprojects.calls, hprojects.requests⟩

/-- Channel 1 of a connection that opened it and sent a request on it. -/
theorem channel_projects_request : ∃ r c, (connectionMachine .sample).run requestRun = some r ∧ r.manager.channelAt 1 = some c ∧
    ∃ ces escaped, (channelMachine .sample 1).run ces = some ⟨c, escaped⟩ ∧
      ces.filter (·.isRequest) = requestRun.filterMap (·.request 1) := by
  obtain ⟨r, c, hr, hc, -⟩ := exists_requestRun
  obtain ⟨ces, escaped, hrun, -, -, hrpcs⟩ := channel_projects .sample hr hc
  exact ⟨r, c, hr, hc, ces, escaped, hrun, hrpcs⟩

/-- What a channel posts are the frames of its users' requests, in their order, as far as their methods can be encoded, and
each of them has a promise: whatever the broker sends, the channel itself posts nothing, no answer to a `channel.close`
either. -/
theorem channel_posts_requests (Γ : Env) {es : List ConnectionEvent} {r : ConnectionRun} (h : (connectionMachine Γ).run es = some r)
    {i : Nat} {c : ChannelImpl} (hc : r.manager.channelAt i = some c) :
    c.posted = (es.filterMap (·.request i)).filterMap (·.posts Γ (UInt16.ofNat i)) ∧ c.rpcPromises.length = c.posted.length := by
  obtain ⟨escaped, hrun, -⟩ := (projects_of_run h).channel c hc
  exact ⟨posted_of_run h hc, (accounts_of_run hrun).promises⟩

/-- The request on channel 1 is posted. -/
theorem channel_posts_requests_one : ∃ r c, (connectionMachine .sample).run requestRun = some r ∧ r.manager.channelAt 1 = some c ∧
    c.posted.length = 1 ∧ c.rpcPromises.length = 1 := by
  obtain ⟨r, c, hr, hc, -⟩ := exists_requestRun
  obtain ⟨hposted, hpromises⟩ := channel_posts_requests .sample hr hc
  have hlength : c.posted.length = 1 := by
    rw [hposted]
    rfl
  exact ⟨r, c, hr, hc, hlength, hpromises.trans hlength⟩

end Amqpp
