import Amqpp.Connection.Numbering
import Amqpp.Connection.Service
import Amqpp.Theorems.Answers
import Amqpp.Theorems.Delivery
import Amqpp.Theorems.Framing
import Amqpp.Theorems.Survival

/-!
# From the users to the socket

What a channel says passes through three places: the requests of its users, the queue of the io_service, and
`begin_write_frame`. On the way nothing is lost, doubled or overtaken, as long as no exception leaves the io_service. When
`io_service::run` has returned, nothing passes any more, and nobody gets an answer.
-/

namespace Amqpp

open Machine (Queued QueuedEvent)

/-- The frames of the requests on a channel. -/
def requestFrames (Γ : Env) (i : Nat) (es : List (QueuedEvent ConnectionEvent Task)) : List Frame :=
  ((es.filterMap QueuedEvent.other?).filterMap (·.request i)).filterMap (·.posts Γ (UInt16.ofNat i))

/-- The frame that a channel is opened with. -/
def Env.opening (Γ : Env) (channelId : UInt16) : Except Exception Frame :=
  createFromMethod Γ.memory channelId (.create Γ.channel Γ.channelOpen)

/-- If the connection manager takes a step, this submits a frame only when no write is in flight, and then one. -/
def ServesAlone (Γ : Env) (q : Queued ConnectionRun Task) (e : QueuedEvent ConnectionEvent Task) : Prop :=
  ∀ e', e.event? (taskQueue Γ) q = some e' → SubmitsAlone Γ q.state e'

namespace ServiceAux

open ConnectionManager IsolationAux

variable {Γ : Env}

/-! ### What is posted -/

/-- The table is never larger than the 16-bit numbers. -/
theorem length_le_of_run {es : List ConnectionEvent} {r : ConnectionRun} (h : (connectionMachine Γ).run es = some r) :
    r.manager.channels.length ≤ 65536 := by
  have hinit : (connectionMachine Γ).run [] = some ⟨.started, none⟩ := rfl
  exact (connectionMachine_evolves hinit h).bound

/-- What a request posts is for its channel. -/
theorem channel_of_posts {channelId : UInt16} {ce : ChannelEvent} {fr : Frame} (h : ce.posts Γ channelId = some fr) :
    fr.channel = channelId := by
  cases ce with
  | beginRpc method classId methodId =>
    change (createFromMethod Γ.memory channelId method).toOption = some fr at h
    cases hcreate : createFromMethod Γ.memory channelId method with
    | error ex =>
      rw [hcreate] at h
      cases h
    | ok fr' =>
      rw [hcreate] at h
      cases h
      exact channel_of_createFromMethod hcreate
  | _ => cases h

section posting

variable {es : List ConnectionEvent} {m : ConnectionManager} (hrun : (connectionMachine Γ).run es = some ⟨m, none⟩)

include hrun

/-- The number of a channel is its index. -/
theorem channelId_of_run {i : Nat} {c : ChannelImpl} (hc : m.channelAt i = some c) : c.channelId = UInt16.ofNat i := by
  exact ((projects_of_run hrun).channel c hc).channelId

variable {e : ConnectionEvent} {r : ConnectionRun} (hnext : ConnectionRun.next Γ m e = some r)

include hnext

theorem run_snoc_of_next : (connectionMachine Γ).run (es ++ [e]) = some r := by
  refine (Machine.run_snoc_eq_some _).mpr ⟨_, hrun, ?_⟩
  simp only [connectionMachine, ConnectionRun.step, Option.isSome_none, Bool.false_eq_true, if_false]
  exact hnext

/-- A channel that lives on has posted the request on it, if that is what happened. -/
theorem postsAt_alive {i : Nat} {c d : ChannelImpl} (hc : m.channelAt i = some c) (hd : r.manager.channelAt i = some d) :
    m.postsAt Γ r.manager i = ((e.request i).bind (·.posts Γ (UInt16.ofNat i))).toList := by
  have hbefore := posted_of_run hrun hc
  have hafter := posted_of_run (run_snoc_of_next hrun hnext) hd
  rw [List.filterMap_append, List.filterMap_append, ← hbefore] at hafter
  unfold postsAt
  rw [channelAt_eq_some.mp hd, hc]
  simp only [Option.getD_some]
  rw [hafter, List.drop_left]
  cases hreq : e.request i with
  | none => simp [hreq]
  | some ce =>
    cases hp : ce.posts Γ (UInt16.ofNat i) with
    | none => simp [hreq, hp]
    | some fr => simp [hreq, hp]

omit hnext in
/-- The destructor of a channel that lived posts its goodbye. -/
theorem postsAt_gone {i : Nat} {c : ChannelImpl} (hc : m.channelAt i = some c) (hgone : r.manager.live i = none) {fr : Frame}
    (hfr : Γ.goodbye (UInt16.ofNat i) = .ok fr) : m.postsAt Γ r.manager i = [fr] := by
  have hlive := channelAt_eq_some.mp hc
  unfold postsAt
  rw [hgone, hc, hlive]
  simp only [Option.getD_some, Option.isNone_some, Bool.false_eq_true, false_and, if_false]
  exact ChannelImpl.destructorPosts_eq (by rw [channelId_of_run hrun hc, hfr])

omit hrun hnext in
/-- An entry that has expired posts nothing. -/
theorem postsAt_expired {i : Nat} (hi : i < m.channels.length) (hbefore : m.live i = none) (hafter : r.manager.live i = none) :
    m.postsAt Γ r.manager i = [] := by
  unfold postsAt
  rw [hafter, hbefore]
  simp [hi]

/-- What is posted at an index is for the channel with that number. -/
theorem channel_of_mem_postsAt {i : Nat} {fr : Frame} (h : fr ∈ m.postsAt Γ r.manager i) : fr.channel = UInt16.ofNat i := by
  unfold postsAt at h
  cases hl : r.manager.live i with
  | none =>
    rw [hl] at h
    simp only at h
    split at h
    · cases h
    · have hid : ((m.channelAt i).getD (.create (UInt16.ofNat i))).channelId = UInt16.ofNat i := by
        cases hc : m.channelAt i with
        | none => rfl
        | some c => exact channelId_of_run hrun hc
      obtain ⟨bye, hbye⟩ := Γ.exists_goodbye (UInt16.ofNat i)
      rw [ChannelImpl.destructorPosts_eq (hid.symm ▸ hbye), List.mem_singleton] at h
      obtain ⟨close, -, hcreate⟩ := Except.bind_eq_ok.mp hbye
      rw [h, channel_of_createFromMethod hcreate]
  | some hd =>
    cases hd with
    | channel0 =>
      rw [hl] at h
      cases h
    | channel d =>
      rw [hl] at h
      have hmem := List.mem_of_mem_drop h
      rw [posted_of_run (run_snoc_of_next hrun hnext) (channelAt_eq_some.mpr hl)] at hmem
      obtain ⟨ce, -, hce⟩ := List.mem_filterMap.mp hmem
      exact channel_of_posts hce

end posting

/-- Among lists that are put together by number, one is found by its number. -/
theorem filter_flatMap_range {α : Type} (f : Nat → List α) (number : α → Nat) {n i : Nat} (h : ∀ j < n, ∀ x ∈ f j, number x = j) :
    ((List.range n).flatMap f).filter (fun x => number x = i) = if i < n then f i else [] := by
  induction n with
  | zero => rfl
  | succ n ih =>
    rw [List.range_succ, List.flatMap_append, List.filter_append, ih fun j hj => h j (by omega), List.flatMap_cons, List.flatMap_nil,
      List.append_nil]
    by_cases hi : i = n
    · have hall : (f n).filter (fun x => number x = i) = f n := by
        rw [List.filter_eq_self]
        intro x hx
        simpa [hi] using h n (by omega) x hx
      rw [hall, if_neg (by omega), if_pos (by omega), hi]
      rfl
    · have hnone : (f n).filter (fun x => number x = i) = [] := by
        rw [List.filter_eq_nil_iff]
        intro x hx
        simpa [h n (by omega) x hx] using Ne.symm hi
      rw [hnone, List.append_nil]
      exact if_congr (by omega) rfl rfl

/-- What a step adds to what leaves on a channel. -/
theorem outgoing_of_next {es : List ConnectionEvent} {m : ConnectionManager} (hrun : (connectionMachine Γ).run es = some ⟨m, none⟩)
    {e : ConnectionEvent} {r : ConnectionRun} (hnext : ConnectionRun.next Γ m e = some r) {frs : List Frame}
    (hfrs : r.manager.submitted = m.submitted ++ frs) (i : Nat) (tasks : List Task) (stopped : Bool) :
    outgoing i ⟨r, tasks ++ (taskQueue Γ).posts ⟨m, none⟩ r, stopped⟩ =
      onChannel i (m.submitted ++ frs ++ tasks.filterMap Task.frame?) ++
        if i < r.manager.channels.length then m.postsAt Γ r.manager i else [] := by
  have hposts : ((taskQueue Γ).posts ⟨m, none⟩ r).filterMap Task.frame? = m.posts Γ r.manager := by
    change ((m.posts Γ r.manager).map Task.beginWriteFrame).filterMap Task.frame? = _
    rw [List.filterMap_map]
    exact List.filterMap_some
  have hsize := length_le_of_run (run_snoc_of_next hrun hnext)
  have hfilter := filter_flatMap_range (m.postsAt Γ r.manager) (fun fr => fr.channel.toNat)
    (n := r.manager.channels.length) (i := i) fun j hj fr hfr => by
      rw [channel_of_mem_postsAt hrun hnext hfr]
      exact UInt16.toNat_ofNat_of_lt' (show j < 65536 by omega)
  unfold outgoing
  simp only [List.filterMap_append, hposts, hfrs]
  rw [← List.append_assoc, onChannel_append, ← hfilter]
  rfl

/-! ### One channel -/

/-- What leaves on a channel, in the states it goes through: nothing before it is opened, then its opening and the requests
on it, and at last its goodbye, among answers to what the broker sends it afterwards. -/
structure Output (Γ : Env) (i : Nat) (requests : List Frame) (q : Queued ConnectionRun Task) : Prop where
  fresh : q.state.manager.channels.length ≤ i → outgoing i q = [] ∧ requests = []
  alive : ∀ c, q.state.manager.channelAt i = some c →
    ∃ fr, Γ.opening (UInt16.ofNat i) = .ok fr ∧ outgoing i q = fr :: requests
  gone : i < q.state.manager.channels.length → q.state.manager.live i = none →
    ∃ bye, Γ.goodbye (UInt16.ofNat i) = .ok bye ∧
      (outgoing i q).filter (· ≠ Γ.closeOkFrame (UInt16.ofNat i)) =
        ((Γ.opening (UInt16.ofNat i)).toOption.toList ++ requests ++ [bye]).filter (· ≠ Γ.closeOkFrame (UInt16.ofNat i))

section step

variable {es : List ConnectionEvent} {m : ConnectionManager} {tasks tasks' : List Task} {e : ConnectionEvent}
  {t : ConnectionManager} {frs : List Frame}

/-- What a submission adds on a channel: nothing, or the opening of a new one, or an answer for one that is gone. -/
theorem onChannel_cases (h : Submission Γ m e t frs)
    (htasks : tasks.filterMap Task.frame? = e.frame?.toList ++ tasks'.filterMap Task.frame?) (i : Nat) (stopped : Bool) :
    (onChannel i (m.submitted ++ frs ++ tasks'.filterMap Task.frame?) = outgoing i ⟨⟨m, none⟩, tasks, stopped⟩ ∧
      (m.channels.length ≤ i → t.live i = none ∧ (i < t.channels.length → Γ.canOpen = false))) ∨
    (∃ fr, i = m.channels.length ∧ Γ.opening (UInt16.ofNat i) = .ok fr ∧
      t.channels = m.channels ++ [some (.channel (.create (UInt16.ofNat i)))] ∧
      onChannel i (m.submitted ++ frs ++ tasks'.filterMap Task.frame?) =
        onChannel i m.submitted ++ fr :: onChannel i (tasks.filterMap Task.frame?)) ∨
    (i < m.channels.length ∧ m.live i = none ∧
      onChannel i (m.submitted ++ frs ++ tasks'.filterMap Task.frame?) =
        onChannel i m.submitted ++ Γ.closeOkFrame (UInt16.ofNat i) :: onChannel i (tasks.filterMap Task.frame?)) := by
  have hsame : e.frame? = none → frs = [] →
      onChannel i (m.submitted ++ frs ++ tasks'.filterMap Task.frame?) = outgoing i ⟨⟨m, none⟩, tasks, stopped⟩ := by
    rintro hframe rfl
    rw [hframe] at htasks
    rw [outgoing, htasks, List.append_nil]
    rfl
  have hpast : t.channels.length = m.channels.length →
      m.channels.length ≤ i → t.live i = none ∧ (i < t.channels.length → Γ.canOpen = false) := by
    intro hlength hle
    refine ⟨?_, fun hlt => by omega⟩
    rw [live, List.getElem?_eq_none (by omega)]
    rfl
  cases h with
  | @task fr _ ht =>
    left
    refine ⟨?_, hpast (congrArg List.length ht)⟩
    rw [outgoing, htasks, ← List.append_assoc]
    rfl
  | @opened fr _ hn hfr ht =>
    by_cases hi : m.channels.length = i
    · subst hi
      right
      left
      refine ⟨fr, rfl, hfr, ht, ?_⟩
      have hchannel : fr.channel.toNat = m.channels.length := by
        rw [channel_of_createFromMethod hfr]
        exact UInt16.toNat_ofNat_of_lt' (show m.channels.length < 65536 by omega)
      rw [htasks, onChannel_append, onChannel_append, onChannel_singleton, if_pos hchannel, List.append_assoc]
      rfl
    · left
      have hchannel : fr.channel.toNat ≠ i := by
        rw [channel_of_createFromMethod hfr, UInt16.toNat_ofNat_of_lt' (show m.channels.length < 65536 by omega)]
        exact hi
      have hlength : t.channels.length ≤ i ∨ i < m.channels.length := by
        rw [ht, List.length_append, List.length_singleton]
        omega
      refine ⟨?_, fun hle => ⟨?_, fun hlt => by omega⟩⟩
      rotate_left
      · rw [live, List.getElem?_eq_none (by omega)]
        rfl
      rw [outgoing, htasks, onChannel_append, onChannel_append, onChannel_singleton, if_neg hchannel, List.append_nil, ← onChannel_append]
      rfl
  | lost hn hopen ht =>
    refine Or.inl ⟨hsame rfl rfl, fun hle => ⟨?_, fun _ => hopen⟩⟩
    rw [live, ht, List.getElem?_append_right hle]
    cases i - m.channels.length <;> rfl
  | full ht => exact Or.inl ⟨hsame rfl rfl, hpast (congrArg List.length ht)⟩
  | @answered _ _ channel _ hlt hdead ht =>
    by_cases hi : channel.toNat = i
    · subst hi
      right
      right
      refine ⟨hlt, hdead, ?_⟩
      have hchannel : (Γ.closeOkFrame channel).channel.toNat = channel.toNat := rfl
      rw [htasks, onChannel_append, onChannel_append, onChannel_singleton, if_pos hchannel, UInt16.ofNat_toNat, List.append_assoc]
      rfl
    · left
      have hchannel : (Γ.closeOkFrame channel).channel.toNat ≠ i := hi
      refine ⟨?_, hpast ht⟩
      rw [outgoing, htasks, onChannel_append, onChannel_append, onChannel_singleton, if_neg hchannel, List.append_nil, ← onChannel_append]
      rfl
  | nothing hframe ht => exact Or.inl ⟨hsame hframe rfl, hpast ht⟩

end step

/-- A handler at an index other than 0 is a channel. -/
theorem exists_channelAt {es : List ConnectionEvent} {r : ConnectionRun} (hrun : (connectionMachine Γ).run es = some r) {i : Nat}
    (hi : 1 ≤ i) {h : FrameHandler} (hl : r.manager.live i = some h) : ∃ c, r.manager.channelAt i = some c := by
  have hinit : (connectionMachine Γ).run [] = some ⟨.started, none⟩ := rfl
  obtain ⟨c, rfl, -⟩ := FrameHandler.number_eq_some.mp ((connectionMachine_evolves hinit hrun).new i h hi hl)
  exact ⟨c, channelAt_eq_some.mpr hl⟩

/-- A request is made on a channel that is alive, and leaves it alive. -/
theorem request_eq_none {m : ConnectionManager} {e : ConnectionEvent} {r : ConnectionRun}
    (hnext : ConnectionRun.next Γ m e = some r) {i : Nat} (h : r.manager.live i = none) : e.request i = none := by
  cases e with
  | beginRpc j method classId methodId =>
    by_cases hj : j = i
    · subst hj
      obtain ⟨-, -, c, d, -, hd, -⟩ := request_of_next hnext
      rw [channelAt_eq_some, h] at hd
      cases hd
    · simp [ConnectionEvent.request, hj]
  | _ => rfl

section output

variable {i : Nat} (hi : 1 ≤ i) {es : List ConnectionEvent} {m : ConnectionManager}
  (hrun : (connectionMachine Γ).run es = some ⟨m, none⟩) {e : ConnectionEvent} {r : ConnectionRun}
  (hnext : ConnectionRun.next Γ m e = some r) (hescaped : r.escaped = none) {tasks tasks' : List Task}
  (htasks : tasks.filterMap Task.frame? = e.frame?.toList ++ tasks'.filterMap Task.frame?) {requests : List Frame}
  {stopped stopped' : Bool} (h : Output Γ i requests ⟨⟨m, none⟩, tasks, stopped⟩)

include hi hrun hnext hescaped htasks h

/-- An entry that was in the table. -/
theorem output_old (hlt : i < m.channels.length) :
    Output Γ i (requests ++ ((e.request i).bind (·.posts Γ (UInt16.ofNat i))).toList)
      ⟨r, tasks' ++ (taskQueue Γ).posts ⟨m, none⟩ r, stopped'⟩ := by
  obtain ⟨frs, hfrs, hsubmission⟩ := ConnectionRun.submission_of_next hnext hescaped
  have hevolves : Evolves Γ m r.manager := Evolves.of_effect (ConnectionRun.effect_of_next hnext)
  have hout := outgoing_of_next hrun hnext hfrs i tasks' stopped'
  have hlt' : i < r.manager.channels.length := Nat.lt_of_lt_of_le hlt hevolves.length
  rw [if_pos hlt'] at hout
  have hcases := onChannel_cases hsubmission htasks i stopped
  refine ⟨fun hle => absurd hlt' (Nat.not_lt.mpr hle), fun d hd => ?_, fun _ hgone => ?_⟩
  · -- It is alive, and was alive before.
    obtain ⟨hd', hl, -⟩ := hevolves.old i _ hlt (channelAt_eq_some.mp hd)
    obtain ⟨c, hc⟩ := exists_channelAt hrun hi hl
    obtain ⟨fr, hfr, hbefore⟩ := h.alive c hc
    refine ⟨fr, hfr, ?_⟩
    rw [hout, postsAt_alive hrun hnext hc hd]
    rcases hcases with ⟨hsame, -⟩ | ⟨_, hnew, -⟩ | ⟨-, hdead, -⟩
    · rw [hsame, hbefore, List.cons_append]
    · omega
    · rw [hdead] at hl
      cases hl
  · have hrequest := request_eq_none hnext hgone
    obtain ⟨bye, hbye⟩ := Γ.exists_goodbye (UInt16.ofNat i)
    refine ⟨bye, hbye, ?_⟩
    rw [hout, hrequest, Option.bind_none, Option.toList_none, List.append_nil]
    rcases hl : m.live i with _ | hd
    · -- It was gone before: answers aside, nothing leaves.
      obtain ⟨bye', hbye', hbefore⟩ := h.gone hlt hl
      obtain rfl := Except.ok.inj (hbye.symm.trans hbye')
      rw [postsAt_expired hlt hl hgone, List.append_nil, ← hbefore]
      rcases hcases with ⟨hsame, -⟩ | ⟨_, hnew, -⟩ | ⟨-, -, hanswer⟩
      · rw [hsame]
      · omega
      · rw [hanswer, outgoing, onChannel_append, List.filter_append, List.filter_append, List.filter_cons_of_neg (by simp)]
    · -- It was alive before: the goodbye is posted.
      obtain ⟨c, hc⟩ := exists_channelAt hrun hi hl
      obtain ⟨fr, hfr, hbefore⟩ := h.alive c hc
      rw [postsAt_gone hrun hc hgone hbye]
      rcases hcases with ⟨hsame, -⟩ | ⟨_, hnew, -⟩ | ⟨-, hdead, -⟩
      · rw [hsame, hbefore, hfr]
        rfl
      · omega
      · rw [hdead] at hl
        cases hl

omit hi in
/-- An entry that was not in the table. -/
theorem output_new (hle : m.channels.length ≤ i) :
    Output Γ i (requests ++ ((e.request i).bind (·.posts Γ (UInt16.ofNat i))).toList)
      ⟨r, tasks' ++ (taskQueue Γ).posts ⟨m, none⟩ r, stopped'⟩ := by
  obtain ⟨frs, hfrs, hsubmission⟩ := ConnectionRun.submission_of_next hnext hescaped
  obtain ⟨hbefore, rfl⟩ := h.fresh hle
  have hout := outgoing_of_next hrun hnext hfrs i tasks' stopped'
  have hnobody : m.live i = none := by
    rw [live, List.getElem?_eq_none hle]
    rfl
  have hnochannel : m.channelAt i = none := by
    rw [Option.eq_none_iff_forall_ne_some]
    intro c hc
    rw [channelAt_eq_some, hnobody] at hc
    cases hc
  rcases onChannel_cases hsubmission htasks i stopped with ⟨hsame, hnone⟩ | ⟨fr, hnew, hfr, hchannels, hopening⟩ | ⟨hlt, -⟩
  · -- Nothing was opened, or what was opened is gone.
    obtain ⟨hgone, hlost⟩ := hnone hle
    rw [hsame, hbefore, List.nil_append] at hout
    rw [request_eq_none hnext hgone, Option.bind_none, Option.toList_none, List.append_nil]
    refine ⟨fun hpast => ⟨?_, rfl⟩, fun d hd => ?_, fun hlt' _ => ?_⟩
    · rw [hout, if_neg (Nat.not_lt.mpr hpast)]
    · rw [channelAt_eq_some, hgone] at hd
      cases hd
    · obtain ⟨bye, hbye⟩ := Γ.exists_goodbye (UInt16.ofNat i)
      have hposts : m.postsAt Γ r.manager i = [bye] := by
        unfold postsAt
        rw [hgone, hnochannel]
        simp only [Nat.not_lt.mpr hle, and_false, if_false]
        exact ChannelImpl.destructorPosts_eq hbye
      have hclosed : (Γ.opening (UInt16.ofNat i)).toOption = none := by
        have hok := isOk_createFromMethod Γ.memory 0 (UInt16.ofNat i) (.create Γ.channel Γ.channelOpen)
        unfold Env.opening
        rcases hcreate : createFromMethod Γ.memory (UInt16.ofNat i) (.create Γ.channel Γ.channelOpen) with ex | fr
        · rfl
        · rw [hcreate] at hok
          exact absurd ((hlost hlt').symm.trans hok) Bool.false_ne_true
      refine ⟨bye, hbye, ?_⟩
      rw [hout, if_pos hlt', hposts, hclosed]
      rfl
  · -- The new channel has said its opening only.
    have hlive : r.manager.live i = some (.channel (.create (UInt16.ofNat i))) := by
      rw [live, hchannels, hnew, List.getElem?_concat_length]
      rfl
    have hopen : e = .startOpenChannel := by
      by_contra hne
      have hlength := (ConnectionRun.effect_of_next hnext).length hne
      rw [hchannels, List.length_append, List.length_singleton] at hlength
      omega
    have hempty : onChannel i m.submitted = [] ∧ onChannel i (tasks.filterMap Task.frame?) = [] := by
      rw [outgoing, onChannel_append] at hbefore
      exact List.append_eq_nil_iff.mp hbefore
    have hposts : m.postsAt Γ r.manager i = [] := by
      unfold postsAt
      rw [hlive]
      exact List.drop_nil
    rw [hopening, hempty.1, hempty.2, hposts, ite_self] at hout
    refine ⟨fun hpast => ?_, fun d _ => ⟨fr, hfr, ?_⟩, fun _ hgone => ?_⟩
    · exact absurd (lt_of_live hlive) (Nat.not_lt.mpr hpast)
    · rw [hout, hopen]
      rfl
    · rw [hlive] at hgone
      cases hgone
  · omega

end output

/-! ### Runs -/

theorem requestFrames_snoc (i : Nat) (es : List (QueuedEvent ConnectionEvent Task)) (e : QueuedEvent ConnectionEvent Task) :
    requestFrames Γ i (es ++ [e]) =
      requestFrames Γ i es ++ ((e.other?.bind (·.request i)).bind (·.posts Γ (UInt16.ofNat i))).toList := by
  unfold requestFrames
  rw [List.filterMap_append, List.filterMap_append, List.filterMap_append]
  congr 1
  cases ho : e.other? with
  | none => simp [ho]
  | some ev =>
    cases hr : ev.request i with
    | none => simp [ho, hr]
    | some ce => cases hp : ce.posts Γ (UInt16.ofNat i) <;> simp [ho, hr, hp]

/-- A run with the queue is a run of the manager. -/
theorem exists_run {es : List (QueuedEvent ConnectionEvent Task)} {q : Queued ConnectionRun Task}
    (h : (serviceMachine Γ).run es = some q) : ∃ es', (connectionMachine Γ).run es' = some q.state := by
  obtain ⟨es', hrun, -⟩ := Machine.run_of_queued h
  exact ⟨es', hrun⟩

theorem output_of_run {i : Nat} (hi : 1 ≤ i) {es : List (QueuedEvent ConnectionEvent Task)} :
    ∀ {q : Queued ConnectionRun Task}, (serviceMachine Γ).run es = some q → q.state.escaped = none →
      (∀ fr, .post (.beginWriteFrame fr) ∈ es → fr.channel.toNat ≠ i) → Output Γ i (requestFrames Γ i es) q := by
  induction es using List.reverseRecOn with
  | nil =>
    intro q h _ _
    cases h
    refine ⟨fun _ => ⟨rfl, rfl⟩, fun c hc => ?_, fun hlt _ => ?_⟩
    · have hlt := lt_of_live (channelAt_eq_some.mp hc)
      exact absurd hi (Nat.not_le.mpr hlt)
    · exact absurd hi (Nat.not_le.mpr hlt)
  | append_singleton es e ih =>
    intro q h hescaped hasync
    obtain ⟨p, hp, hstep⟩ := (Machine.run_snoc_eq_some _).mp h
    have hqueued := Machine.queuedStep_of_step hstep
    have hnone : p.state.escaped = none := by
      cases hqueued with
      | post _ => exact hescaped
      | runTask _ _ hserve => exact (ConnectionRun.next_of_step hserve).1
      | other _ _ hserve => exact (ConnectionRun.next_of_step hserve).1
    obtain ⟨es', hrun⟩ := exists_run hp
    have houtput := ih hp hnone fun fr hfr => hasync fr (List.mem_append_left _ hfr)
    rw [requestFrames_snoc]
    obtain ⟨⟨m, escaped⟩, tasks, stopped⟩ := p
    cases hnone
    have hnext : ∀ {ev : ConnectionEvent} {r : ConnectionRun} {tasks' : List Task} {stopped' : Bool},
        ConnectionRun.next Γ m ev = some r → r.escaped = none →
        tasks.filterMap Task.frame? = ev.frame?.toList ++ tasks'.filterMap Task.frame? →
        Output Γ i (requestFrames Γ i es ++ ((ev.request i).bind (·.posts Γ (UInt16.ofNat i))).toList)
          ⟨r, tasks' ++ (taskQueue Γ).posts ⟨m, none⟩ r, stopped'⟩ := by
      intro ev r tasks' stopped' hnext hnone htasks
      rcases Nat.lt_or_ge i m.channels.length with hlt | hge
      · exact output_old hi hrun hnext hnone htasks houtput hlt
      · exact output_new hrun hnext hnone htasks houtput hge
    have hserves : ∀ {ev : ConnectionEvent} {r : ConnectionRun}, (connectionMachine Γ).step ⟨m, none⟩ ev = some r →
        ConnectionRun.next Γ m ev = some r := fun h => (ConnectionRun.next_of_step (r := ⟨m, none⟩) h).2
    cases hqueued with
    | @post task haccepts =>
      have hsame : outgoing i ⟨⟨m, none⟩, tasks ++ [task], stopped⟩ = outgoing i ⟨⟨m, none⟩, tasks, stopped⟩ := by
        rw [outgoing, outgoing, onChannel_append, onChannel_append, List.filterMap_append, onChannel_append]
        cases task with
        | startOpenChannel => rw [show onChannel i ([Task.startOpenChannel].filterMap Task.frame?) = [] from rfl, List.append_nil]
        | beginWriteFrame fr =>
          have hother := hasync fr (List.mem_append_right _ (List.mem_singleton_self _))
          have hframe : [Task.beginWriteFrame fr].filterMap Task.frame? = [fr] := rfl
          rw [hframe, onChannel_singleton, if_neg hother, List.append_nil]
      have hrequests : requestFrames Γ i es ++
          (((QueuedEvent.post task : QueuedEvent ConnectionEvent Task).other?.bind (·.request i)).bind
            (·.posts Γ (UInt16.ofNat i))).toList = requestFrames Γ i es := List.append_nil _
      rw [hrequests]
      exact ⟨fun hle => hsame ▸ houtput.fresh hle, fun c hc => hsame ▸ houtput.alive c hc,
        fun hlt hgone => hsame ▸ houtput.gone hlt hgone⟩
    | @runTask task tasks' r _ hq hserve =>
      cases hq
      cases task with
      | startOpenChannel => exact hnext (hserves hserve) hescaped rfl
      | beginWriteFrame fr => exact hnext (hserves hserve) hescaped rfl
    | @other ev r _ htask hserve =>
      refine hnext (hserves hserve) hescaped ?_
      cases ev with
      | beginWriteFrame fr => cases htask
      | _ => rfl

/-- The requests of a channel that is alive. -/
theorem requests_of_run {es : List (QueuedEvent ConnectionEvent Task)} {q : Queued ConnectionRun Task}
    (h : (serviceMachine Γ).run es = some q) (hescaped : q.state.escaped = none) {i : Nat}
    (hasync : ∀ fr, .post (.beginWriteFrame fr) ∈ es → fr.channel.toNat ≠ i) {c : ChannelImpl}
    (hc : q.state.manager.channelAt i = some c) :
    ∃ fr, Γ.opening (UInt16.ofNat i) = .ok fr ∧ outgoing i q = fr :: requestFrames Γ i es := by
  obtain ⟨es', hrun⟩ := exists_run h
  have hi : i ≠ 0 := by
    rintro rfl
    rw [channelAt_eq_some, SurvivalAux.live_zero_of_run hrun] at hc
    cases hc
  exact (output_of_run (Nat.pos_of_ne_zero hi) h hescaped hasync).alive c hc

/-! ### The queue -/

/-- A step that adds nothing but new channels to the table posts nothing. -/
theorem posts_eq_nil {m t : ConnectionManager} {hs : List (Option FrameHandler)} (h : t.channels = m.channels ++ hs)
    (hnew : ∀ x ∈ hs, ∃ n, x = some (.channel (.create n))) : m.posts Γ t = [] := by
  unfold posts
  rw [List.flatMap_eq_nil_iff]
  intro i hi
  have hlt := List.mem_range.mp hi
  rcases Nat.lt_or_ge i m.channels.length with hold | hge
  · have hlive : t.live i = m.live i := by
      rw [live, live, h, List.getElem?_append_left hold]
    rcases hl : m.live i with _ | hd
    · exact postsAt_expired (r := ⟨t, none⟩) hold hl (hlive.trans hl)
    · cases hd with
      | channel0 =>
        unfold postsAt
        rw [hlive, hl]
      | channel c =>
        unfold postsAt
        rw [hlive, hl, channelAt_eq_some.mpr hl]
        exact List.drop_length
  · obtain ⟨x, hx⟩ : ∃ x, hs[i - m.channels.length]? = some x := by
      refine ⟨_, List.getElem?_eq_getElem ?_⟩
      rw [h, List.length_append] at hlt
      omega
    obtain ⟨n, rfl⟩ := hnew x (List.mem_of_getElem? hx)
    have hlive : t.live i = some (.channel (.create n)) := by
      rw [live, h, List.getElem?_append_right hge, hx]
      rfl
    unfold postsAt
    rw [hlive]
    exact List.drop_nil

/-- Every task can run, and returns. -/
theorem exists_runTask (hopen : Γ.canOpen = true) (r : ConnectionRun) (task : Task) (hr : r.escaped = none) :
    ∃ t, (connectionMachine Γ).step r task.event = some t ∧ (taskQueue Γ).posts r t = [] ∧ t.escaped = none := by
  obtain ⟨m, escaped⟩ := r
  cases hr
  have hserve : ∀ (t : ConnectionManager) (hs : List (Option FrameHandler)), ConnectionRun.next Γ m task.event = some ⟨t, none⟩ →
      t.channels = m.channels ++ hs → (∀ x ∈ hs, ∃ n, x = some (.channel (.create n))) →
      ∃ t, (connectionMachine Γ).step ⟨m, none⟩ task.event = some t ∧ (taskQueue Γ).posts ⟨m, none⟩ t = [] ∧ t.escaped = none := by
    intro t hs hnext hchannels hnew
    refine ⟨⟨t, none⟩, ?_, ?_, rfl⟩
    · exact hnext
    · exact congrArg (List.map Task.beginWriteFrame) (posts_eq_nil hchannels hnew)
  cases task with
  | beginWriteFrame fr =>
    obtain ⟨t, ht, -, hchannels⟩ := DispatchAux.beginWriteFrame_calls Γ ⟨m.allocated, fr⟩ { m with allocated := m.allocated + 1 }
    have hrun : runBeginWriteFrame Γ fr m = .ok () t := ht
    refine hserve t [] ?_ (hchannels.trans (List.append_nil _).symm) fun x hx => absurd hx List.not_mem_nil
    rw [Task.event, ConnectionRun.next, hrun]
    rfl
  | startOpenChannel =>
    by_cases hfull : 65535 < m.channels.length
    · refine hserve { m with channelPromises := m.channelPromises ++ [.exception (.runtimeError "Out of channels!")] } []
        ?_ (List.append_nil _).symm fun x hx => absurd hx List.not_mem_nil
      rw [Task.event, ConnectionRun.next, runStartOpenChannel_full Γ hfull]
      rfl
    · have hle := Nat.le_of_not_lt hfull
      have hok := isOk_createFromMethod Γ.memory 0 (UInt16.ofNat m.channels.length) (.create Γ.channel Γ.channelOpen)
      rcases hfr : createFromMethod Γ.memory (UInt16.ofNat m.channels.length) (.create Γ.channel Γ.channelOpen) with ex | fr
      · rw [hfr] at hok
        exact absurd (hok.symm.trans hopen) Bool.false_ne_true
      · obtain ⟨t, ht, hwrote⟩ := runStartOpenChannel_of_ok hle hfr
        refine hserve _ _ ?_ hwrote.channels fun x hx => ⟨_, List.mem_singleton.mp hx⟩
        rw [Task.event, ConnectionRun.next, ht]
        rfl

/-! ### When `io_service::run` has returned -/

/-- A channel of a run that waits for the answer to a request, and for nothing else. -/
theorem not_ready_of_run {es : List (QueuedEvent ConnectionEvent Task)} {q : Queued ConnectionRun Task}
    (h : (serviceMachine Γ).run es = some q) {i : Nat} {c : ChannelImpl} (hc : q.state.manager.channelAt i = some c) :
    c.channelClosedFuture = ⟨none⟩ := by
  obtain ⟨es', hrun⟩ := exists_run h
  exact (SurvivalAux.handled_of_run hrun i c hc).future

/-- Users make their calls, and nobody answers them. -/
theorem stopped_of_step {r r' : ConnectionRun} {e : ConnectionEvent} (he : e.isUser = true)
    (h : (connectionMachine Γ).step r e = some r') : r.manager.Stopped r'.manager :=
  stopped_of_isUser he (ConnectionRun.next_of_step h).2

/-- A request that had no answer when `io_service::run` returned: it waits as long as it is the last one. -/
theorem declareExchangeWait_of_unanswered {es : List (QueuedEvent ConnectionEvent Task)} {q : Queued ConnectionRun Task}
    (h : (serviceMachine Γ).run es = some q) {i : Nat} {c d : ChannelImpl} (hd : q.state.manager.channelAt i = some d)
    (hunanswered : c.Unanswered d) {j : Nat} (hunset : c.satisfied (.rpc j) = false) :
    d.declareExchangeWait j = if j + 1 < d.rpcPromises.length then some (.error .brokenPromise) else none := by
  obtain ⟨es', hrun⟩ := exists_run h
  obtain ⟨escaped, hreached, -⟩ := (projects_of_run hrun).channel d hd
  have hrecorded := AnswersAux.recorded_of_run hreached
  unfold ChannelImpl.declareExchangeWait
  rw [AnswersAux.waitForAny_rpc (not_ready_of_run h hd)]
  rcases hsat : d.satisfied (.rpc j) with _ | _
  · have hlast : ¬j + 1 < d.rpcPromises.length := by
      intro hlt
      have hlength : d.rpcPromises.length = j + 1 := hrecorded.last_of_unset (Nat.lt_of_succ_lt hlt) hsat
      omega
    rw [if_neg hlast]
    rfl
  · obtain ⟨p, hp, hpsat⟩ := ChannelImpl.exists_of_satisfied_rpc hsat
    obtain rfl := hunanswered.broken j p hp hpsat hunset
    have hlt : j + 1 < d.rpcPromises.length := hrecorded.lt_of_broken hp
    rw [if_pos hlt]
    simp [ChannelImpl.rpcGet, hp, Except.map]

/-- As long as a read is outstanding, `io_service::run` goes on. -/
theorem goes_of_reads {es : List (QueuedEvent ConnectionEvent Task)} {q : Queued ConnectionRun Task}
    (h : (serviceMachine Γ).run es = some q) (hreads : q.state.manager.reads ≠ []) : q.stopped = false := by
  by_contra hstopped
  have hidle := Machine.isIdle_of_stopped (T := taskQueue Γ) (fun r e r' he hidle hstep => ?_) h (Bool.not_eq_false _ ▸ hstopped)
  · exact hreads (List.isEmpty_iff.mp ((Bool.and_eq_true _ _).mp hidle).1)
  · have hstep := stopped_of_step he hstep
    change (r'.manager.reads.isEmpty && r'.manager.writes.isEmpty) = true
    rw [hstep.reads, hstep.writes]
    exact hidle

/-! ### On the socket -/

/-- Frames that are submitted on their own go out in their order. -/
theorem sends_of_run {es : List (QueuedEvent ConnectionEvent Task)} {q : Queued ConnectionRun Task}
    (h : (serviceMachine Γ).run es = some q) (halone : (serviceMachine Γ).Guarded (ServesAlone Γ) es) : DeliveryAux.Sends Γ q.state :=
  Machine.queued_invariant (I := DeliveryAux.Sends Γ) DeliveryAux.sends_init
    (fun _ _ _ hr hguard hstep => DeliveryAux.sends_snoc hr hguard hstep) halone h

/-- A call of a user submits nothing. -/
theorem submitsAlone_of_isUser {r : ConnectionRun} {e : ConnectionEvent} (he : e.isUser = true) : SubmitsAlone Γ r e := by
  intro r' hstep _
  rw [(stopped_of_isUser he (ConnectionRun.next_of_step hstep).2).submitted]
  exact Nat.le_add_right _ _

/-! ### Samples -/

/-- A channel is opened, the frame is sent, and a user sends a request. -/
def requestTasks : List (QueuedEvent ConnectionEvent Task) :=
  [.post .startOpenChannel, .runTask] ++ List.replicate 13 (.other (.transmit 0)) ++
    [.other (.writeDone 0 true), .other (.beginRpc 1 (.create EnvSample.exchange EnvSample.exchangeDeclare) 40 11)]

theorem exists_requestTasks : ∃ q c, (serviceMachine .sample).run requestTasks = some q ∧ q.state.escaped = none ∧
    q.stopped = false ∧ q.state.manager.channelAt 1 = some c ∧ q.state.manager.state = .openState ∧ q.state.manager.writes = [] ∧
    q.state.manager.submitted = [⟨.method, 1, [0, 20, 0, 10, 0]⟩] := by
  have hstate : ((serviceMachine .sample).run requestTasks).map (fun q => (q.state.escaped.isNone && !q.stopped,
      (q.state.manager.channelAt 1).isSome, q.state.manager.state, q.state.manager.writes, q.state.manager.submitted)) =
      some (true, true, .openState, [], [⟨.method, 1, [0, 20, 0, 10, 0]⟩]) := by decide +kernel
  obtain ⟨q, hq, hstate⟩ := Option.map_eq_some_iff.mp hstate
  simp only [Prod.mk.injEq, Bool.and_eq_true, Bool.not_eq_true', Option.isNone_iff_eq_none, Option.isSome_iff_exists] at hstate
  obtain ⟨⟨hnone, hgoes⟩, ⟨c, hc⟩, hstate⟩ := hstate
  exact ⟨q, c, hq, hnone, hgoes, hc, hstate⟩

/-- Nobody called `write_frame_async`. -/
theorem channel_of_mem_requestTasks (fr : Frame) (h : .post (.beginWriteFrame fr) ∈ requestTasks) (i : Nat) : fr.channel.toNat ≠ i := by
  simp [requestTasks] at h

theorem servesAlone_requestTasks : (serviceMachine .sample).Guarded (ServesAlone .sample) requestTasks := by
  have hopening : (serviceMachine .sample).Guarded (ServesAlone .sample) [.post .startOpenChannel, .runTask] := by
    refine (@Machine.guarded_snoc _ _ _ _ [_] _).mpr ⟨(@Machine.guarded_snoc _ _ _ _ [] _).mpr ⟨Machine.guarded_nil _, ?_⟩, ?_⟩
    · rintro q - e ⟨⟩
    · rintro _ ⟨⟩ _ ⟨⟩ _ ⟨⟩ -
      decide
  refine Machine.Guarded.append (Machine.Guarded.append hopening ?_) ?_
  · intro e he q e' he'
    rw [List.eq_of_mem_replicate he] at he'
    cases he'
    exact DeliveryAux.submitsAlone_transmit q.state 0
  · intro e he q e' he'
    rcases List.mem_pair.mp he with rfl | rfl
    · cases he'
      exact DeliveryAux.submitsAlone_writeDone q.state 0
    · cases he'
      exact submitsAlone_of_isUser rfl

/-- The same, and then the user drops the channel. -/
def goodbyeTasks : List (QueuedEvent ConnectionEvent Task) := requestTasks ++ [.other (.destroyChannel 1)]

theorem exists_goodbyeTasks : ∃ q, (serviceMachine .sample).run goodbyeTasks = some q ∧ q.state.escaped = none ∧
    q.state.manager.channels.length = 2 ∧ q.state.manager.live 1 = none := by
  have hstate : ((serviceMachine .sample).run goodbyeTasks).map (fun q => (q.state.escaped.isNone, q.state.manager.channels.length,
      (q.state.manager.live 1).isNone)) = some (true, 2, true) := by decide +kernel
  obtain ⟨q, hq, hstate⟩ := Option.map_eq_some_iff.mp hstate
  simp only [Prod.mk.injEq, Option.isNone_iff_eq_none] at hstate
  exact ⟨q, hq, hstate⟩

/-- The request is sent, and then the read fails: nothing is left that the thread could wait for. -/
def endedTasks : List (QueuedEvent ConnectionEvent Task) := requestTasks ++ [.runTask] ++
  List.replicate 21 (.other (.transmit 0)) ++ [.other (.writeDone 0 true), .other (.readDone 0 none)]

theorem exists_endedTasks : ∃ q q' d, (serviceMachine .sample).run endedTasks = some q ∧ q.stopped = true ∧
    (serviceMachine .sample).run (endedTasks ++ [.post .startOpenChannel]) = some q' ∧ q'.tasks = [.startOpenChannel] ∧
    q.state.manager.channelPromises.length = 1 ∧ q'.state.manager.channelAt 1 = some d ∧ d.rpcPromises.length = 1 ∧
    ∀ c, q.state.manager.channelAt 1 = some c → c.satisfied (.rpc 0) = false := by
  have hstate : ((serviceMachine .sample).run endedTasks).map (fun q => (q.stopped && q.state.escaped.isNone, q.tasks,
      q.state.manager.channelPromises.length, (q.state.manager.channelAt 1).map fun c => (c.rpcPromises.length, c.satisfied (.rpc 0)))) =
      some (true, [], 1, some (1, false)) := by decide +kernel
  obtain ⟨q, hq, hstate⟩ := Option.map_eq_some_iff.mp hstate
  simp only [Prod.mk.injEq, Bool.and_eq_true, Option.isNone_iff_eq_none] at hstate
  obtain ⟨⟨hstopped, hescaped⟩, htasks, hpromises, hchannel⟩ := hstate
  obtain ⟨d, hd, hd'⟩ := Option.map_eq_some_iff.mp hchannel
  obtain ⟨hlength, hunset⟩ := Prod.mk.injEq _ _ _ _ |>.mp hd'
  have hpost : (serviceMachine .sample).step q (.post .startOpenChannel) = some { q with tasks := q.tasks ++ [.startOpenChannel] } := by
    simp [serviceMachine, Machine.queued, taskQueue, hescaped, beginOpenChannel, Except.isOk, Except.toBool]
  refine ⟨q, _, d, hq, hstopped, (serviceMachine .sample).run_snoc_eq_some.mpr ⟨q, hq, hpost⟩, by rw [htasks]; rfl, hpromises, hd,
    hlength, fun c hc => ?_⟩
  obtain rfl : d = c := Option.some.inj (hd.symm.trans hc)
  exact hunset

end ServiceAux

open ServiceAux ConnectionManager

/-- Frames on a channel that is alive leave it in the order in which it was asked for them: the `channel.open`, then the
requests of its users. Those that were passed to `begin_write_frame`, with those that wait in the queue behind them, are all
of them, once each, whatever happens on the other channels and whatever the broker sends. -/
theorem channel_requests_in_order (Γ : Env) {es : List (QueuedEvent ConnectionEvent Task)} {q : Queued ConnectionRun Task}
    (h : (serviceMachine Γ).run es = some q) (hescaped : q.state.escaped = none) {i : Nat}
    (hasync : ∀ fr, .post (.beginWriteFrame fr) ∈ es → fr.channel.toNat ≠ i) {c : ChannelImpl}
    (hc : q.state.manager.channelAt i = some c) :
    ∃ fr, Γ.opening (UInt16.ofNat i) = .ok fr ∧ outgoing i q = fr :: requestFrames Γ i es :=
  requests_of_run h hescaped hasync hc

/-- The opening and the request. -/
theorem channel_requests_in_order_two : ∃ q, (serviceMachine .sample).run requestTasks = some q ∧ (outgoing 1 q).length = 2 := by
  obtain ⟨q, c, hq, hescaped, -, hc, -⟩ := exists_requestTasks
  obtain ⟨fr, -, hout⟩ := channel_requests_in_order .sample hq hescaped (fun fr h => channel_of_mem_requestTasks fr h 1) hc
  exact ⟨q, hq, by rw [hout]; rfl⟩

/-- A channel that is gone has said goodbye: behind its requests, in their order, there is one `channel.close` with code 200.
Besides these, only answers to what the broker sends to it afterwards leave on its number. -/
theorem channel_goodbye (Γ : Env) {es : List (QueuedEvent ConnectionEvent Task)} {q : Queued ConnectionRun Task}
    (h : (serviceMachine Γ).run es = some q) (hescaped : q.state.escaped = none) {i : Nat}
    (hasync : ∀ fr, .post (.beginWriteFrame fr) ∈ es → fr.channel.toNat ≠ i) (hlt : i < q.state.manager.channels.length)
    (hgone : q.state.manager.live i = none) :
    ∃ bye, Γ.goodbye (UInt16.ofNat i) = .ok bye ∧
      (outgoing i q).filter (· ≠ Γ.closeOkFrame (UInt16.ofNat i)) =
        ((Γ.opening (UInt16.ofNat i)).toOption.toList ++ requestFrames Γ i es ++ [bye]).filter
          (· ≠ Γ.closeOkFrame (UInt16.ofNat i)) := by
  obtain ⟨es', hrun⟩ := exists_run h
  have hi : i ≠ 0 := by
    rintro rfl
    rw [SurvivalAux.live_zero_of_run hrun] at hgone
    cases hgone
  exact (output_of_run (Nat.pos_of_ne_zero hi) h hescaped hasync).gone hlt hgone

/-- The opening, the request and the goodbye. -/
theorem channel_goodbye_three : ∃ q, (serviceMachine .sample).run goodbyeTasks = some q ∧
    ((outgoing 1 q).filter (· ≠ Env.sample.closeOkFrame 1)).length = 3 := by
  obtain ⟨q, hq, hescaped, hlength, hgone⟩ := exists_goodbyeTasks
  obtain ⟨bye, hbye, hout⟩ := channel_goodbye .sample hq hescaped (fun fr h => by simp [goodbyeTasks, requestTasks] at h)
    (by rw [hlength]; decide) hgone
  cases hbye
  exact ⟨q, hq, (congrArg List.length hout).trans (by decide)⟩

/-- However many handlers wait, and whatever has happened before, as long as `io_service::run` has neither returned nor thrown
they can all run, one after the other, and return: the queue is then empty, and every request on a channel that is alive has
been passed to `begin_write_frame`. -/
theorem queue_drains (Γ : Env) (hopen : Γ.canOpen = true) {es : List (QueuedEvent ConnectionEvent Task)}
    {q : Queued ConnectionRun Task} (h : (serviceMachine Γ).run es = some q) (hescaped : q.state.escaped = none)
    (hgoes : q.stopped = false) :
    ∃ q', (serviceMachine Γ).run (es ++ List.replicate q.tasks.length .runTask) = some q' ∧ q'.tasks = [] ∧
      q'.state.escaped = none ∧ ∀ i c, q'.state.manager.channelAt i = some c →
        (∀ fr, .post (.beginWriteFrame fr) ∈ es → fr.channel.toNat ≠ i) →
        ∃ fr, Γ.opening (UInt16.ofNat i) = .ok fr ∧ onChannel i q'.state.manager.submitted = fr :: requestFrames Γ i es := by
  obtain ⟨q', hq', hempty, hescaped'⟩ := Machine.exists_drained (I := fun r => r.escaped = none)
    (fun r task hr => exists_runTask hopen r task hr) h rfl (fun _ => hgoes) hescaped
  refine ⟨q', hq', hempty, hescaped', fun i c hc hasync => ?_⟩
  have hnone : (List.replicate q.tasks.length (QueuedEvent.runTask : QueuedEvent ConnectionEvent Task)).filterMap
      QueuedEvent.other? = [] := by
    rw [List.filterMap_eq_nil_iff]
    intro e he
    rw [List.eq_of_mem_replicate he]
    rfl
  have hrequests : requestFrames Γ i (es ++ List.replicate q.tasks.length .runTask) = requestFrames Γ i es := by
    rw [requestFrames, List.filterMap_append, hnone, List.append_nil]
    rfl
  have hposted : ∀ fr, .post (.beginWriteFrame fr) ∈ es ++ List.replicate q.tasks.length .runTask → fr.channel.toNat ≠ i := by
    intro fr hfr
    rcases List.mem_append.mp hfr with hmem | hmem
    · exact hasync fr hmem
    · cases List.eq_of_mem_replicate hmem
  obtain ⟨fr, hfr, hout⟩ := requests_of_run hq' hescaped' hposted hc
  refine ⟨fr, hfr, ?_⟩
  rw [← hrequests, ← hout, outgoing, hempty, List.filterMap_nil, List.append_nil]

/-- The request is passed to `begin_write_frame`. -/
theorem queue_drains_two : ∃ q q', (serviceMachine .sample).run requestTasks = some q ∧
    (serviceMachine .sample).run (requestTasks ++ List.replicate q.tasks.length .runTask) = some q' ∧ q'.tasks = [] := by
  obtain ⟨q, c, hq, hescaped, hgoes, -⟩ := exists_requestTasks
  obtain ⟨q', hq', hempty, -⟩ := queue_drains .sample (by decide) hq hescaped hgoes
  exact ⟨q, q', hq, hq', hempty⟩

/-- From the users of a channel to the broker, when each frame was submitted on its own and no write is in flight: what the
broker's reader finds on the socket for that channel, and behind it what waits in the queue, are the `channel.open` and the
requests, all of them, once each and in their order. -/
theorem broker_hears_channel (Γ : Env) {es : List (QueuedEvent ConnectionEvent Task)} {q : Queued ConnectionRun Task}
    (h : (serviceMachine Γ).run es = some q) (hescaped : q.state.escaped = none)
    (halone : (serviceMachine Γ).Guarded (ServesAlone Γ) es) (hopen : q.state.manager.state = .openState)
    (hwrites : q.state.manager.writes = []) (hsizes : ∀ f ∈ q.state.manager.submitted, f.payload.length < 2 ^ 32) {i : Nat}
    (hasync : ∀ fr, .post (.beginWriteFrame fr) ∈ es → fr.channel.toNat ≠ i) {c : ChannelImpl}
    (hc : q.state.manager.channelAt i = some c) :
    ∃ fr, Γ.opening (UInt16.ofNat i) = .ok fr ∧ ∀ k builder, q.state.manager.submitted.length ≤ k →
      onChannel i (readFrames Γ.constants k builder q.state.manager.socket).1 ++ onChannel i (q.tasks.filterMap Task.frame?) =
        fr :: requestFrames Γ i es := by
  obtain ⟨fr, hfr, hout⟩ := requests_of_run h hescaped hasync hc
  refine ⟨fr, hfr, fun k builder hk => ?_⟩
  have hbytes := (sends_of_run h halone).inOrder.all hopen
  rw [hwrites, List.flatMap_nil, List.append_nil] at hbytes
  rw [hbytes, FramingAux.readFrames_flatMap Γ.constants _ hsizes k hk builder, ← onChannel_append]
  exact hout

/-- The opening is heard, the request waits. -/
theorem broker_hears_channel_two : ∃ q, (serviceMachine .sample).run requestTasks = some q ∧
    (onChannel 1 (readFrames .sample 1 .create q.state.manager.socket).1 ++ onChannel 1 (q.tasks.filterMap Task.frame?)).length = 2 := by
  obtain ⟨q, c, hq, hescaped, -, hc, hopen, hwrites, hsubmitted⟩ := exists_requestTasks
  obtain ⟨fr, -, hread⟩ := broker_hears_channel .sample hq hescaped servesAlone_requestTasks hopen hwrites
    (by rw [hsubmitted]; decide) (fun fr h => channel_of_mem_requestTasks fr h 1) hc
  exact ⟨q, hq, congrArg List.length (hread 1 .create (by rw [hsubmitted]; decide))⟩

/-- Once `io_service::run` has returned, whatever users do: nothing more is submitted or sent, the handlers that are posted stay
in the queue, and nobody is answered. Whoever opens a channel from then on waits forever. So does whoever waits for the
response of a request, unless another request comes after it: then the promise is broken. -/
theorem returned_run_answers_nobody (Γ : Env) {pre es : List (QueuedEvent ConnectionEvent Task)} {q q' : Queued ConnectionRun Task}
    (hq : (serviceMachine Γ).run pre = some q) (hstopped : q.stopped = true) (hq' : (serviceMachine Γ).run (pre ++ es) = some q') :
    q'.stopped = true ∧ q'.state.manager.submitted = q.state.manager.submitted ∧
    q'.state.manager.socket = q.state.manager.socket ∧ q.tasks <+: q'.tasks ∧
    (∀ promise, q.state.manager.channelPromises.length ≤ promise → q'.state.manager.openChannel promise = none) ∧
    ∀ i d, q'.state.manager.channelAt i = some d → ∃ c, q.state.manager.channelAt i = some c ∧
      d.channelOpenedPromise = c.channelOpenedPromise ∧ ∀ j, c.satisfied (.rpc j) = false →
        d.declareExchangeWait j = if j + 1 < d.rpcPromises.length then some (.error .brokenPromise) else none := by
  obtain ⟨hstopped', hcalls, htasks⟩ := Machine.tasks_of_stopped (R := fun r r' => r.manager.Stopped r'.manager)
    (fun _ _ _ he hstep => stopped_of_step he hstep) hq hstopped hq'
  refine ⟨hstopped', hcalls.submitted, hcalls.socket, htasks, fun promise hle => ?_, fun i d hd => ?_⟩
  · rw [openChannel, hcalls.channelPromises, List.getElem?_eq_none hle]
  · obtain ⟨c, hc, hunanswered⟩ := hcalls.channel i d hd
    exact ⟨c, hc, hunanswered.opened, fun j hunset => declareExchangeWait_of_unanswered hq' hd hunanswered hunset⟩

/-- The read fails while nothing else is outstanding: the user who then asks for a channel waits, like the one who sent the
request. -/
theorem returned_run_answers_nobody_two : ∃ q q' d, (serviceMachine .sample).run endedTasks = some q ∧
    (serviceMachine .sample).run (endedTasks ++ [.post .startOpenChannel]) = some q' ∧ q'.tasks = [.startOpenChannel] ∧
    q'.state.manager.openChannel 1 = none ∧ q'.state.manager.channelAt 1 = some d ∧ d.declareExchangeWait 0 = none := by
  obtain ⟨q, q', d, hq, hstopped, hq', htasks, hpromises, hd, hlength, hunset⟩ := exists_endedTasks
  obtain ⟨-, -, -, -, hopen, hwaits⟩ := returned_run_answers_nobody .sample hq hstopped hq'
  obtain ⟨c, hc, -, hwait⟩ := hwaits 1 d hd
  refine ⟨q, q', d, hq, hq', htasks, hopen 1 hpromises.le, hd, ?_⟩
  rw [hwait 0 (hunset c hc), hlength]
  rfl

end Amqpp
