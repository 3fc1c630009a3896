import Amqpp.Channel.History
import Amqpp.Theorems.Isolation

/-!
# Requests and their responses

Nothing in a frame says which request it answers, and a channel keeps the handler of its last request only. So a request is
answered by the frame that comes next, if one comes before the next request, and its promise is broken if the next request
comes first: by the history alone it can be said what is in each promise, and what becomes of each call of
`declare_exchange`.
-/

namespace Amqpp

open Signal (nextAnswer exchanges)

namespace AnswersAux

open ChannelImpl ChannelPromisesAux

variable {Γ : Env} {channelId : UInt16}

/-- What the promises hold and which handler is installed, by the history. -/
structure Recorded (Γ : Env) (history : List (Signal (UInt16 × UInt16) Frame)) (c : ChannelImpl) : Prop where
  opened : c.channelOpenedPromise = Γ.openedPromise (nextAnswer history)
  rpc : c.rpcPromises = (exchanges history).map Γ.rpcPromise
  opening : exchanges history = [] → c.continuation = .processOpen
  handler : ∀ xs classId methodId o, exchanges history = xs ++ [((classId, methodId), o)] →
    c.continuation = .rpcHandler classId methodId xs.length

theorem recorded_create (channelId : UInt16) : Recorded Γ [] (.create channelId) :=
  ⟨rfl, rfl, fun _ => rfl, fun xs _ _ _ h => by cases xs <;> cases h⟩

theorem isSatisfied_openedPromise (fr : Frame) : (Γ.openedPromise (some fr)).isSatisfied = true := by
  unfold Env.openedPromise
  simp only
  split <;> rfl

/-- A request waits until a frame or another request comes. -/
theorem isSatisfied_rpcPromise (ids : UInt16 × UInt16) {fate : Fate Frame} (h : fate ≠ .waiting) :
    (Γ.rpcPromise (ids, fate)).isSatisfied = true := by
  cases fate with
  | waiting => exact absurd rfl h
  | answered fr =>
    unfold Env.rpcPromise
    simp only
    split <;> rfl
  | overtaken => rfl

/-- What the destructor of a promise does is what being overtaken means. -/
theorem destroy_rpcPromise (ids : UInt16 × UInt16) (fate : Fate Frame) :
    (Γ.rpcPromise (ids, fate)).destroy .brokenPromise = Γ.rpcPromise (ids, fate.overtake) := by
  cases fate with
  | waiting => rfl
  | answered fr => exact Promise.destroy_of_isSatisfied _ (isSatisfied_rpcPromise ids fun h => by cases h)
  | overtaken => rfl

variable {history : List (Signal (UInt16 × UInt16) Frame)} {c : ChannelImpl}

/-- A frame while no request was made: the first one opens the channel, or fails to. -/
theorem recorded_frame_opening (hrec : Recorded Γ history c) (hnil : exchanges history = []) {fr : Frame} (hch : fr.channel = c.channelId) :
    (processFrame Γ fr c).Ends (Recorded Γ (history ++ [.answer fr])) := by
  have hc := hrec.opening hnil
  have hawaits : c.continuation.awaits = some .channelOpened := by rw [hc]; rfl
  have hnil' := Signal.exchanges_snoc_answer_of_nil hnil fr
  have hnext := Signal.nextAnswer_snoc_of_nil hnil fr
  rcases hfirst : nextAnswer history with _ | fr'
  · have hunset : c.channelOpenedPromise = .unset := by rw [hrec.opened, hfirst]; rfl
    refine processFrame_ends hch hawaits (by rw [satisfied, hunset]; rfl) (fun i hi => by cases hi) ?_
    refine (runContinuation_processOpen hc hunset fr).imp ?_
    rintro _ rfl
    refine ⟨?_, ?_, fun _ => hc, fun xs _ _ _ h => ?_⟩
    · rw [hnext, hfirst]
      rfl
    · rw [hnil', ← hnil]
      exact hrec.rpc
    · rw [hnil'] at h
      cases xs <;> cases h
  · have hsat : c.satisfied .channelOpened = true := by rw [satisfied, hrec.opened, hfirst, isSatisfied_openedPromise]
    rw [processFrame_of_satisfied Γ hch hawaits hsat]
    refine ⟨?_, ?_, fun _ => hc, fun xs _ _ _ h => ?_⟩
    · rw [hnext, hrec.opened, hfirst]
      rfl
    · rw [hnil', ← hnil]
      exact hrec.rpc
    · rw [hnil'] at h
      cases xs <;> cases h

/-- A frame after a request: the first one answers it. -/
theorem recorded_frame_request (hrec : Recorded Γ history c) {xs : List ((UInt16 × UInt16) × Fate Frame)} {classId methodId : UInt16}
    {o : Fate Frame} (hxs : exchanges history = xs ++ [((classId, methodId), o)]) {fr : Frame} (hch : fr.channel = c.channelId) :
    (processFrame Γ fr c).Ends (Recorded Γ (history ++ [.answer fr])) := by
  have hc := hrec.handler _ _ _ _ hxs
  have hawaits : c.continuation.awaits = some (.rpc xs.length) := by rw [hc]; rfl
  have hrpc := hrec.rpc
  rw [hxs, List.map_append, List.map_singleton] at hrpc
  have hget : c.rpcPromises[xs.length]? = some (Γ.rpcPromise ((classId, methodId), o)) := by
    rw [hrpc, List.getElem?_append_right (by rw [List.length_map]), List.length_map, Nat.sub_self]
    rfl
  have hanswered := Signal.exchanges_snoc_answer hxs fr
  have hopened : c.channelOpenedPromise = Γ.openedPromise (nextAnswer (history ++ [.answer fr])) := by
    rw [Signal.nextAnswer_append (Signal.ne_nil_of_exchanges (by rw [hxs]; simp))]
    exact hrec.opened
  -- Either way the handler stays.
  have hhandler : ∀ d : ChannelImpl, d.continuation = c.continuation → ∀ ys classId' methodId' o',
      exchanges (history ++ [.answer fr]) = ys ++ [((classId', methodId'), o')] →
      d.continuation = .rpcHandler classId' methodId' ys.length := by
    intro d hd ys classId' methodId' o' hys
    obtain ⟨rfl, hlast⟩ := List.append_inj' (hanswered.symm.trans hys) rfl
    cases hlast
    exact hd.trans hc
  have hopening : ∀ d : ChannelImpl, exchanges (history ++ [.answer fr]) = [] → d.continuation = .processOpen := by
    intro d hnil
    rw [hanswered] at hnil
    exact absurd hnil (by simp)
  by_cases hwaiting : o = .waiting
  · subst hwaiting
    have hlt : xs.length < c.rpcPromises.length := by rw [hrpc]; simp
    refine processFrame_ends hch hawaits (satisfied_rpc hget) (fun i hi => by cases hi; exact hlt) ?_
    refine (runContinuation_rpcHandler hc hget fr).imp ?_
    rintro _ rfl
    refine ⟨hopened, ?_, hopening _, hhandler _ rfl⟩
    rw [hanswered, hrpc, List.map_append, List.set_append_right _ _ (by rw [List.length_map]), List.length_map, Nat.sub_self]
    rfl
  · have hsat : c.satisfied (.rpc xs.length) = true := by rw [satisfied_rpc hget, isSatisfied_rpcPromise _ hwaiting]
    rw [processFrame_of_satisfied Γ hch hawaits hsat]
    refine ⟨hopened, ?_, hopening _, hhandler _ rfl⟩
    rw [hanswered, Fate.answer_of_ne hwaiting, hrec.rpc, hxs]

/-- A change of what is last. -/
theorem modify_last {α : Type} (f : α → α) (l : List α) (a : α) : (l ++ [a]).modify l.length f = l ++ [f a] := by
  induction l with
  | nil => rfl
  | cons b l ih => simp [ih]

/-- The promises of the requests before, when the handler is replaced. -/
theorem rpcPromises_overtaken (hrec : Recorded Γ history c) (classId methodId : UInt16) :
    c.dropContinuation.rpcPromises ++ [.unset] = (exchanges (history ++ [.ask (classId, methodId)])).map Γ.rpcPromise := by
  rcases List.eq_nil_or_concat (exchanges history) with hnil | ⟨xs, ⟨ids, fate⟩, hxs⟩
  · have hdrop : c.dropContinuation = c := dropContinuation_of_ne fun i => by
      rw [hrec.opening hnil]
      exact fun h => by cases h
    rw [hdrop, hrec.rpc, hnil, Signal.exchanges_snoc_ask_of_nil hnil]
    rfl
  · rw [List.concat_eq_append] at hxs
    have hawaits : c.continuation.awaits = some (.rpc xs.length) := by
      rw [hrec.handler xs ids.1 ids.2 fate hxs]
      rfl
    have hmodify : ((xs ++ [(ids, fate)]).map Γ.rpcPromise).modify xs.length (Promise.destroy .brokenPromise) =
        (xs ++ [(ids, fate.overtake)]).map Γ.rpcPromise := by
      rw [List.map_append, List.map_append, List.map_singleton, List.map_singleton, ← destroy_rpcPromise]
      simpa using modify_last (Promise.destroy .brokenPromise) (xs.map Γ.rpcPromise) (Γ.rpcPromise (ids, fate))
    have hmap : (xs ++ [(ids, fate.overtake)] ++ [((classId, methodId), Fate.waiting)]).map Γ.rpcPromise =
        (xs ++ [(ids, fate.overtake)]).map Γ.rpcPromise ++ [.unset] := List.map_append
    rw [rpcPromises_dropContinuation hawaits, hrec.rpc, Signal.exchanges_snoc_ask hxs, hxs, hmodify, hmap]

/-- A request that installs its handler. -/
theorem recorded_request (hrec : Recorded Γ history c) (classId methodId : UInt16) (fr : Frame) :
    Recorded Γ (history ++ [.ask (classId, methodId)])
      { c with
        continuation := .rpcHandler classId methodId c.rpcPromises.length
        rpcPromises := c.dropContinuation.rpcPromises ++ [.unset]
        posted := c.posted ++ [fr] } := by
  have hrpc := rpcPromises_overtaken hrec classId methodId
  -- The request is the last one.
  obtain ⟨ys, hys⟩ : ∃ ys, exchanges (history ++ [.ask (classId, methodId)]) = ys ++ [((classId, methodId), .waiting)] := by
    rcases List.eq_nil_or_concat (exchanges history) with hnil | ⟨xs, ⟨ids, fate⟩, hxs⟩
    · exact ⟨[], Signal.exchanges_snoc_ask_of_nil hnil _⟩
    · exact ⟨_, Signal.exchanges_snoc_ask (by rw [hxs, List.concat_eq_append]) _⟩
  have hlength : c.rpcPromises.length = ys.length := by
    have hlen := congrArg List.length hrpc
    rw [hys] at hlen
    simpa using hlen
  refine ⟨?_, hrpc, fun hnil => ?_, fun xs classId' methodId' o hxs => ?_⟩
  · rw [Signal.nextAnswer_snoc_ask]
    exact hrec.opened
  · rw [hys] at hnil
    exact absurd hnil (by simp)
  · obtain ⟨rfl, hlast⟩ := List.append_inj' (hys.symm.trans hxs) rfl
    cases hlast
    rw [hlength]

/-- One call more. -/
theorem recorded_snoc {s s' : ChannelRun} {e : ChannelEvent} (hs : Handles channelId s.channel) (hrec : Recorded Γ history s.channel)
    (h : s.step Γ e = some s') : Recorded Γ (history ++ (e.signal Γ channelId).toList) s'.channel := by
  cases e with
  | processFrame fr =>
    obtain ⟨hch, hafter⟩ := s.step_processFrame Γ h
    refine ChannelRun.after_leaves hafter (Outcome.Ends.leaves ?_)
    rcases List.eq_nil_or_concat (exchanges history) with hnil | ⟨xs, ⟨⟨classId, methodId⟩, o⟩, hxs⟩
    · exact recorded_frame_opening hrec hnil hch
    · exact recorded_frame_request hrec (by rw [hxs, List.concat_eq_append]) hch
  | beginRpc method classId methodId =>
    change s.after false (beginRpc Γ method classId methodId s.channel) = some s' at h
    rcases hframe : createFromMethod Γ.memory s.channel.channelId method with e | fr
    · rw [beginRpc_of_error Γ hs.not_ready hframe] at h
      cases h
      rw [hs.channelId] at hframe
      rw [ChannelEvent.signal, hframe]
      exact (List.append_nil history).symm ▸ hrec
    · rw [beginRpc_of_ok Γ hs.not_ready hs.lt hframe] at h
      cases h
      rw [hs.channelId] at hframe
      rw [ChannelEvent.signal, hframe]
      exact recorded_request hrec classId methodId fr
  | closeAsync =>
    obtain ⟨p, hp⟩ := ChannelRun.after_leaves h (ConnectionManager.closeAsync_leaves s.channel)
    rw [hp]
    exact (List.append_nil history).symm ▸ ⟨hrec.opened, hrec.rpc, hrec.opening, hrec.handler⟩

theorem recorded_of_run {es : List ChannelEvent} : ∀ {s : ChannelRun}, (channelMachine Γ channelId).run es = some s →
    Recorded Γ (es.filterMap (·.signal Γ channelId)) s.channel := by
  induction es using List.reverseRecOn with
  | nil =>
    intro s h
    cases h
    exact recorded_create channelId
  | append_singleton es e ih =>
    intro s' h
    obtain ⟨s, hrun, hstep⟩ := Machine.run_snoc_eq_some _ |>.mp h
    have hsnoc := recorded_snoc (armed_iff_fresh hrun).1 (ih hrun) hstep
    rw [List.filterMap_append]
    cases hsignal : e.signal Γ channelId with
    | none => simpa [hsignal] using hsnoc
    | some signal => simpa [hsignal] using hsnoc

/-! ### Waiting -/

/-- The request that a promise belongs to. -/
theorem Recorded.exchange (hrec : Recorded Γ history c) {j : Nat} {p : Promise Exception Method} (h : c.rpcPromises[j]? = some p) :
    ∃ xs ids fate ys, exchanges history = xs ++ (ids, fate) :: ys ∧ xs.length = j ∧ p = Γ.rpcPromise (ids, fate) := by
  rw [hrec.rpc, List.getElem?_map] at h
  obtain ⟨⟨ids, fate⟩, hfate, hpromise⟩ := Option.map_eq_some_iff.mp h
  obtain ⟨hlt, hsplit⟩ := List.getElem?_eq_some_iff.mp hfate
  refine ⟨(exchanges history).take j, ids, fate, (exchanges history).drop (j + 1), ?_, List.length_take_of_le (Nat.le_of_lt hlt),
    hpromise.symm⟩
  rw [← hsplit, List.getElem_cons_drop, List.take_append_drop]

/-- The request that waits is the last one. -/
theorem Recorded.last_of_unset (hrec : Recorded Γ history c) {j : Nat} (hj : j < c.rpcPromises.length)
    (hunset : c.satisfied (.rpc j) = false) : c.rpcPromises.length = j + 1 := by
  obtain ⟨xs, ids, fate, ys, hxs, rfl, hpromise⟩ := hrec.exchange (getElem?_of_unset_rpc hunset hj)
  have hwaiting : fate = .waiting := by
    by_contra hne
    have hsat := isSatisfied_rpcPromise (Γ := Γ) ids hne
    rw [← hpromise] at hsat
    cases hsat
  subst hwaiting
  rw [hrec.rpc, List.length_map, hxs, Signal.eq_last_of_waiting hxs, List.length_append]
  rfl

/-- A request whose promise is broken is not the last one. -/
theorem Recorded.lt_of_broken (hrec : Recorded Γ history c) {j : Nat} (h : c.rpcPromises[j]? = some (.exception .brokenPromise)) :
    j + 1 < c.rpcPromises.length := by
  obtain ⟨xs, ids, fate, ys, hxs, rfl, hpromise⟩ := hrec.exchange h
  have hovertaken : fate = .overtaken := by
    cases fate with
    | waiting => cases hpromise
    | answered fr =>
      unfold Env.rpcPromise at hpromise
      simp only at hpromise
      split at hpromise <;> cases hpromise
    | overtaken => rfl
  subst hovertaken
  have hys : 0 < ys.length := List.length_pos_of_ne_nil (Signal.ne_nil_of_overtaken hxs)
  rw [hrec.rpc, List.length_map, hxs, List.length_append, List.length_cons]
  omega

/-- Whoever waits waits for the promise of the request: the future for the closing is never ready. -/
theorem waitForAny_rpc {c : ChannelImpl} (hfuture : c.channelClosedFuture = ⟨none⟩) (j : Nat) :
    Future.waitForAny c.satisfied [⟨some (.rpc j)⟩, c.channelClosedFuture] = if c.satisfied (.rpc j) then some 0 else none := by
  simp [Future.waitForAny, Future.isReady, hfuture, List.findIdx?_cons]

theorem declareExchangeWait_of_rpcPromises {c : ChannelImpl} (hfuture : c.channelClosedFuture = ⟨none⟩)
    {xs : List ((UInt16 × UInt16) × Fate Frame)} (hrpc : c.rpcPromises = xs.map Γ.rpcPromise) (j : Nat) :
    c.declareExchangeWait j = xs[j]?.bind Γ.rpcOutcome := by
  have hget : c.rpcPromises[j]? = xs[j]?.map Γ.rpcPromise := by rw [hrpc, List.getElem?_map]
  unfold declareExchangeWait rpcGet
  rw [waitForAny_rpc hfuture, satisfied, hget]
  rcases xs[j]? with _ | ⟨⟨classId, methodId⟩, fate⟩
  · rfl
  · cases fate with
    | waiting => rfl
    | overtaken => rfl
    | answered fr =>
      have hsat : (Γ.rpcPromise ((classId, methodId), .answered fr)).isSatisfied = true := isSatisfied_rpcPromise _ fun h => by cases h
      simp only [Option.map_some, Option.any_some, hsat, if_true, Option.bind_some]
      rcases hreply : Γ.reply classId methodId fr with _ | m
      · simp [Env.rpcPromise, Env.rpcOutcome, hreply, Except.map]
      · simp [Env.rpcPromise, Env.rpcOutcome, hreply, Except.map]

/-! ### A sample -/

/-- A channel is opened, a request is answered, and another one is made. -/
def answeredRun : List ConnectionEvent :=
  IsolationAux.requestRun ++ [.readDone 0 (some [1, 0, 1, 0, 0, 0, 4, 0]), .readDone 0 (some [40, 0, 11, 206]),
    .beginRpc 1 (.create EnvSample.exchange EnvSample.exchangeDeclare) 40 11]

theorem exists_answeredRun : ∃ r c, (connectionMachine .sample).run answeredRun = some r ∧ r.manager.channelAt 1 = some c := by
  have hstate : ((connectionMachine .sample).run answeredRun).map (fun r => (r.manager.channelAt 1).isSome) = some true := by
    decide +kernel
  obtain ⟨r, hr, hsome⟩ := Option.map_eq_some_iff.mp hstate
  obtain ⟨c, hc⟩ := Option.isSome_iff_exists.mp hsome
  exact ⟨r, c, hr, hc⟩

end AnswersAux

open AnswersAux ChannelPromisesAux ChannelImpl IsolationAux

/-- In every run of a channel, what its promises hold can be read off its history. The opening and each request have the
frame that came next: a method with the ids of the response is the value, and any other frame makes an exception. The promise
of a request that another one came after is broken, that of the last request waits for a frame, and frames that come on top of
an answer change no promise. -/
theorem promises_of_history (Γ : Env) (channelId : UInt16) {es : List ChannelEvent} {s : ChannelRun}
    (h : (channelMachine Γ channelId).run es = some s) :
    s.channel.channelOpenedPromise = Γ.openedPromise (nextAnswer (es.filterMap (·.signal Γ channelId))) ∧
    s.channel.rpcPromises = (exchanges (es.filterMap (·.signal Γ channelId))).map Γ.rpcPromise :=
  ⟨(recorded_of_run h).opened, (recorded_of_run h).rpc⟩

/-- The channel is opened, the first request is overtaken by the second, and that one is answered. -/
theorem promises_of_history_overtaken : ∃ s, (channelMachine .sample 1).run
      [.processFrame EnvSample.openOkFrame, .beginRpc (.create EnvSample.exchange EnvSample.exchangeDeclare) 40 11,
        .beginRpc (.create EnvSample.exchange EnvSample.exchangeDeclare) 40 11, .processFrame ⟨.method, 1, [0, 40, 0, 11]⟩] = some s ∧
    s.channel.channelOpenedPromise = .value true ∧
    s.channel.rpcPromises.map (fun p => (p.isSatisfied, p.value?.isSome)) = [(true, false), (true, true)] := by
  obtain ⟨s, hs⟩ : ∃ s, (channelMachine .sample 1).run
      [.processFrame EnvSample.openOkFrame, .beginRpc (.create EnvSample.exchange EnvSample.exchangeDeclare) 40 11,
        .beginRpc (.create EnvSample.exchange EnvSample.exchangeDeclare) 40 11,
        .processFrame ⟨.method, 1, [0, 40, 0, 11]⟩] = some s := ⟨_, rfl⟩
  obtain ⟨hopened, hrpc⟩ := promises_of_history .sample 1 hs
  refine ⟨s, hs, ?_, ?_⟩
  · rw [hopened]
    decide
  · rw [hrpc]
    decide

/-- As long as no exception has ended the run, every frame that was delivered to a channel has answered a promise, the one
that it was opened with or that of a request, and no promise was answered otherwise. So there was at most one frame more
than there were requests. A request that has no answer and is not the last one has a broken promise. -/
theorem delivered_frames_answer (Γ : Env) {es : List ConnectionEvent} {r : ConnectionRun} (h : (connectionMachine Γ).run es = some r)
    (hescaped : r.escaped = none) {i : Nat} {c : ChannelImpl} (hc : r.manager.channelAt i = some c) :
    c.answered = (r.manager.delivered i).length ∧ (r.manager.delivered i).length ≤ c.posted.length + 1 ∧
    ∀ j, j + 1 < c.posted.length → c.satisfied (.rpc j) = true := by
  obtain ⟨escaped, hrun, hcalm⟩ := (projects_of_run h).channel c hc
  have haccounts := accounts_of_run hrun
  have hanswered : c.answered = (r.manager.delivered i).length := by
    rw [delivered_eq, ← (projects_of_run h).calls, filterMap_frame_filter]
    refine haccounts.answered fun hmem => ?_
    cases hcalm hescaped _ hmem
  have hpromises : c.rpcPromises.length = c.posted.length := haccounts.promises
  refine ⟨hanswered, ?_, fun j hj => ?_⟩
  · have hcount : c.rpcPromises.countP isAnswered ≤ c.rpcPromises.length := List.countP_le_length
    unfold answered at hanswered
    split at hanswered <;> omega
  · by_contra hunset
    have hlt : j < c.rpcPromises.length := by omega
    have hlast : c.rpcPromises.length = j + 1 := (recorded_of_run hrun).last_of_unset hlt (Bool.not_eq_true _ ▸ hunset)
    omega

/-- The `channel.open_ok` answered one promise. -/
theorem delivered_frames_answer_openOk : ∃ r c, (connectionMachine .sample).run requestRun = some r ∧
    r.manager.channelAt 1 = some c ∧ c.answered = (r.manager.delivered 1).length := by
  obtain ⟨r, c, hr, hc, hescaped⟩ := exists_requestRun
  exact ⟨r, c, hr, hc, (delivered_frames_answer .sample hr hescaped hc).1⟩

/-- What becomes of every request in every run of a connection: `declare_exchange` returns exactly when the next that
happened on its channel was the response, it throws what is left of the handler's exception when it was another frame and
`broken_promise` when it was another request, and as long as neither came it waits: no closing ends the wait. -/
theorem declare_exchange_outcome (Γ : Env) {es : List ConnectionEvent} {r : ConnectionRun} (h : (connectionMachine Γ).run es = some r)
    {i : Nat} {c : ChannelImpl} (hc : r.manager.channelAt i = some c) (j : Nat) :
    c.declareExchangeWait j =
      (exchanges ((channelHistory Γ i es).filterMap (·.signal Γ (UInt16.ofNat i))))[j]?.bind Γ.rpcOutcome := by
  obtain ⟨escaped, hrun, -⟩ := (projects_of_run h).channel c hc
  have hrpc := (promises_of_history Γ _ hrun).2
  exact declareExchangeWait_of_rpcPromises (armed_iff_fresh hrun).1.future hrpc j

/-- A request is answered, and the next one waits. -/
theorem declare_exchange_outcome_two : ∃ r c, (connectionMachine .sample).run answeredRun = some r ∧
    r.manager.channelAt 1 = some c ∧ c.declareExchangeWait 0 = some (.ok ()) ∧ c.declareExchangeWait 1 = none := by
  obtain ⟨r, c, hr, hc⟩ := exists_answeredRun
  refine ⟨r, c, hr, hc, ?_, ?_⟩
  · rw [declare_exchange_outcome .sample hr hc 0]
    decide +kernel
  · rw [declare_exchange_outcome .sample hr hc 1]
    decide +kernel

end Amqpp
