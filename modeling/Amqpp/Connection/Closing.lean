import Amqpp.Connection.Effects

/-!
# Closing the socket

What `close_channels` does when every live channel is open, and what it does when one of them was closed before. With that,
a step of the machine either is calm or runs `on_socket_close`.
-/

namespace Amqpp

/-- The handler is a channel whose closed promise is not satisfied. -/
def FrameHandler.IsOpen (h : FrameHandler) : Prop := ∃ c, h = .channel c ∧ c.channelClosedPromise.isSatisfied = false

/-- The handler is a channel whose closed promise is satisfied. -/
def FrameHandler.IsClosed (h : FrameHandler) : Prop := ∃ c, h = .channel c ∧ c.channelClosedPromise.isSatisfied = true

instance : DecidablePred FrameHandler.IsClosed
  | .channel0 => isFalse fun ⟨_, h, _⟩ => by cases h
  | .channel c => decidable_of_iff (c.channelClosedPromise.isSatisfied = true)
      ⟨fun h => ⟨c, rfl, h⟩, fun ⟨_, hc, h⟩ => by cases hc; exact h⟩

theorem FrameHandler.SameClosing.isClosed_iff {a b : FrameHandler} (h : a.SameClosing b) : a.IsClosed ↔ b.IsClosed := by
  cases h with
  | channel0 => exact Iff.rfl
  | channel h =>
    constructor
    · rintro ⟨c, hc, hsat⟩
      cases hc
      exact ⟨_, rfl, h.channelClosedPromise ▸ hsat⟩
    · rintro ⟨c, hc, hsat⟩
      cases hc
      exact ⟨_, rfl, h.channelClosedPromise ▸ hsat⟩

theorem FrameHandler.IsOpen.not_isClosed {h : FrameHandler} (ho : h.IsOpen) : ¬h.IsClosed := by
  rintro ⟨d, hd, hsat⟩
  obtain ⟨c, rfl, hunset⟩ := ho
  cases hd
  rw [hunset] at hsat
  cases hsat

namespace ConnectionManager

/-! ## One handler -/

/-- An expired handler is passed over. -/
theorem closeHandler_expired {s : ConnectionManager} {i : Nat} (h : s.live i = none) : closeHandler i s = .ok () s := by
  unfold closeHandler
  unfold live at h
  rcases hl : s.channels[i]? with _ | _ | fh
  · simp only [Prog.bind_apply, Prog.get_apply, hl, Prog.pure_apply]
  · simp only [Prog.bind_apply, Prog.get_apply, hl, Prog.pure_apply]
  · rw [hl] at h
    cases h

/-- An open channel is closed. -/
theorem closeHandler_open {s : ConnectionManager} {i : Nat} {c : ChannelImpl} (h : s.live i = some (.channel c))
    (hopen : c.channelClosedPromise.isSatisfied = false) :
    closeHandler i s = .ok ()
      (({ s with calls := s.calls ++ [.closeAsync i] } : ConnectionManager).setChannel i
        { c with channelClosedPromise := .value 1 }) := by
  have hat : ({ s with calls := s.calls ++ [.closeAsync i] } : ConnectionManager).channelAt i = some c :=
    channelAt_eq_some.mpr h
  unfold closeHandler
  simp only [Prog.bind_apply, Prog.get_apply, live_eq_some.mp h, record, Prog.modify_apply, Prog.zoom, hat,
    ChannelImpl.closeAsync_of_unset (Promise.eq_unset hopen)]

/-- A channel that was closed before makes the loop throw. -/
theorem closeHandler_closed {s : ConnectionManager} {i : Nat} {c : ChannelImpl} (h : s.live i = some (.channel c))
    (hclosed : c.channelClosedPromise.isSatisfied = true) : ∃ t, closeHandler i s = .throws .promiseAlreadySatisfied t := by
  have hat : ({ s with calls := s.calls ++ [.closeAsync i] } : ConnectionManager).channelAt i = some c :=
    channelAt_eq_some.mpr h
  unfold closeHandler
  simp only [Prog.bind_apply, Prog.get_apply, live_eq_some.mp h, record, Prog.modify_apply, Prog.zoom, hat,
    ChannelImpl.closeAsync_of_satisfied hclosed]
  exact ⟨_, rfl⟩

/-- Channel 0 has no such function. -/
theorem closeHandler_channel0 {s : ConnectionManager} {i : Nat} (h : s.live i = some .channel0) :
    ∃ e t, e ≠ .stuck ∧ closeHandler i s = .throws e t := by
  unfold closeHandler
  simp only [Prog.bind_apply, Prog.get_apply, live_eq_some.mp h, record, Prog.modify_apply, Prog.throw_apply]
  exact ⟨_, _, by simp, rfl⟩

/-! ## The loop -/

/-- From `s` to `t` the handlers at the indices `is` were closed, each of them once. -/
structure Closed (is : List Nat) (s t : ConnectionManager) : Prop where
  state : t.state = s.state
  promise : t.connectionClosedPromise = s.connectionClosedPromise
  length : t.channels.length = s.channels.length
  others : ∀ i, i ∉ is → t.live i = s.live i
  lived : ∀ i h, t.live i = some h → ∃ h', s.live i = some h'
  closed : ∀ i h, i ∈ is → t.live i = some h → h.IsClosed
  calls : ∀ i, t.calls.count (.closeAsync i) = s.calls.count (.closeAsync i) + if i ∈ is ∧ (s.live i).isSome then 1 else 0

/-- One handler after the other. -/
theorem Closed.cons {i : Nat} {is : List Nat} {s s' t : ConnectionManager} (hi : i ∉ is) (h : Closed [i] s s')
    (h' : Closed is s' t) : Closed (i :: is) s t := by
  have hother : ∀ j, j ≠ i → s'.live j = s.live j := fun j hj => h.others j (by rwa [List.mem_singleton])
  refine ⟨h'.state.trans h.state, h'.promise.trans h.promise, h'.length.trans h.length, ?_, ?_, ?_, ?_⟩
  · intro j hj
    rw [List.mem_cons, not_or] at hj
    rw [h'.others j hj.2, hother j hj.1]
  · intro j hd hlive
    obtain ⟨hd', hlive'⟩ := h'.lived j hd hlive
    exact h.lived j hd' hlive'
  · intro j hd hj hlive
    rcases List.mem_cons.mp hj with rfl | hj
    · rw [h'.others j hi] at hlive
      exact h.closed j hd (List.mem_singleton_self j) hlive
    · exact h'.closed j hd hj hlive
  · intro j
    rw [h'.calls j, h.calls j]
    by_cases hj : j = i
    · subst hj
      simp [hi]
    · simp [hj, hother j hj]

/-- A handler that is open or gone. -/
theorem closeHandler_ok {s : ConnectionManager} {i : Nat} (hopen : ∀ h, s.live i = some h → h.IsOpen) :
    ∃ t, closeHandler i s = .ok () t ∧ Closed [i] s t := by
  rcases hl : s.live i with _ | h
  · refine ⟨s, closeHandler_expired hl, rfl, rfl, rfl, fun _ _ => rfl, fun _ hd hlive => ⟨hd, hlive⟩, ?_, ?_⟩
    · intro j hd hj hlive
      rw [List.mem_singleton.mp hj, hl] at hlive
      cases hlive
    · intro j
      by_cases hj : j = i
      · subst hj
        simp [hl]
      · simp [hj]
  · obtain ⟨c, rfl, hc⟩ := hopen h hl
    refine ⟨_, closeHandler_open hl hc, rfl, rfl, List.length_set, ?_, ?_, ?_, ?_⟩
    · intro j hj
      rw [live_set (s := s) (lt_of_live hl) rfl, if_neg (by rwa [List.mem_singleton] at hj)]
    · intro j hd hlive
      rw [live_set (s := s) (lt_of_live hl) rfl] at hlive
      split at hlive
      · rename_i hj
        exact ⟨_, hj ▸ hl⟩
      · exact ⟨hd, hlive⟩
    · intro j hd hj hlive
      rw [live_set (s := s) (lt_of_live hl) rfl, if_pos (List.mem_singleton.mp hj)] at hlive
      cases hlive
      exact ⟨_, rfl, rfl⟩
    · intro j
      change (s.calls ++ [Call.closeAsync i]).count (.closeAsync j) = _
      rw [List.count_append, List.count_singleton]
      by_cases hj : j = i
      · subst hj
        simp [hl]
      · simp [hj, Ne.symm hj]

/-- The loop on handlers that are all open or gone. -/
theorem closeEach_ok {is : List Nat} (hnodup : is.Nodup) :
    ∀ {s : ConnectionManager}, (∀ i ∈ is, ∀ h, s.live i = some h → h.IsOpen) →
      ∃ t, closeEach is s = .ok () t ∧ Closed is s t := by
  induction is with
  | nil =>
    intro s _
    exact ⟨s, rfl, rfl, rfl, rfl, fun _ _ => rfl, fun _ hd hlive => ⟨hd, hlive⟩, fun _ _ hi => absurd hi List.not_mem_nil,
      fun i => by simp⟩
  | cons i is ih =>
    intro s hopen
    obtain ⟨hi, hnodup⟩ := List.nodup_cons.mp hnodup
    obtain ⟨s', hs', hfirst⟩ := closeHandler_ok (hopen i List.mem_cons_self)
    have hrest : ∀ j ∈ is, ∀ h, s'.live j = some h → h.IsOpen := by
      intro j hj h hlive
      rw [hfirst.others j (fun hmem => hi (List.mem_singleton.mp hmem ▸ hj))] at hlive
      exact hopen j (List.mem_cons_of_mem _ hj) h hlive
    obtain ⟨t, ht, hclosed⟩ := ih hnodup hrest
    refine ⟨t, ?_, hfirst.cons hi hclosed⟩
    unfold closeEach
    rw [Prog.bind_apply, hs']
    exact ht

/-- The loop throws when one of the handlers was closed before. -/
theorem closeEach_throws {is : List Nat} :
    ∀ {s : ConnectionManager}, (∃ i ∈ is, ∃ h, s.live i = some h ∧ h.IsClosed) →
      ∃ e t, e ≠ .stuck ∧ closeEach is s = .throws e t := by
  induction is with
  | nil =>
    rintro s ⟨i, hi, -⟩
    exact absurd hi List.not_mem_nil
  | cons i is ih =>
    rintro s ⟨j, hj, hd, hlive, hclosed⟩
    unfold closeEach
    rw [Prog.bind_apply]
    rcases hl : s.live i with _ | h
    · have hj' : j ∈ is := by
        rcases List.mem_cons.mp hj with rfl | hj
        · rw [hl] at hlive
          cases hlive
        · exact hj
      rw [closeHandler_expired hl]
      exact ih ⟨j, hj', hd, hlive, hclosed⟩
    · cases h with
      | channel0 =>
        obtain ⟨e, t, he, h⟩ := closeHandler_channel0 hl
        rw [h]
        exact ⟨e, t, he, rfl⟩
      | channel c =>
        cases hc : c.channelClosedPromise.isSatisfied with
        | true =>
          obtain ⟨t, h⟩ := closeHandler_closed hl hc
          rw [h]
          exact ⟨_, t, by simp, rfl⟩
        | false =>
          have hji : j ≠ i := by
            rintro rfl
            cases hl.symm.trans hlive
            exact FrameHandler.IsOpen.not_isClosed ⟨c, rfl, hc⟩ hclosed
          rw [closeHandler_open hl hc]
          refine ih ⟨j, (List.mem_cons.mp hj).resolve_left hji, hd, ?_, hclosed⟩
          rw [live_set (s := s) (lt_of_live hl) rfl, if_neg hji]
          exact hlive

/-- `on_socket_close` when every live channel is open or gone. -/
theorem onSocketClose_ok {s : ConnectionManager} (hsize : s.channels ≠ [])
    (hopen : ∀ i, 1 ≤ i → ∀ h, s.live i = some h → h.IsOpen) :
    ∃ t, onSocketClose s = .ok () t ∧
      Closed (List.range' 1 (s.channels.length - 1)) { s with state := .closedState } t := by
  obtain ⟨t, ht, hclosed⟩ := closeEach_ok (s := { s with state := .closedState })
    (List.nodup_range' (s := 1) (n := s.channels.length - 1)) fun i hi =>
      hopen i (List.mem_range'_1.mp hi).1
  refine ⟨t, ?_, hclosed⟩
  simp only [onSocketClose, closeChannels, Prog.bind_apply, Prog.modify_apply, Prog.get_apply, Prog.ite_apply,
    List.length_eq_zero_iff, if_neg hsize]
  exact ht

/-- `on_socket_close` when some live channel was closed before. -/
theorem onSocketClose_throws {s : ConnectionManager} {i : Nat} {h : FrameHandler} (hi : 1 ≤ i) (hlive : s.live i = some h)
    (hclosed : h.IsClosed) : ∃ e t, e ≠ .stuck ∧ onSocketClose s = .throws e t := by
  have hlt := lt_of_live hlive
  have hmem : i ∈ List.range' 1 (s.channels.length - 1) := List.mem_range'_1.mpr ⟨hi, by omega⟩
  obtain ⟨e, t, he, ht⟩ := closeEach_throws (s := { s with state := .closedState }) ⟨i, hmem, h, hlive, hclosed⟩
  refine ⟨e, t, he, ?_⟩
  simp only [onSocketClose, closeChannels, Prog.bind_apply, Prog.modify_apply, Prog.get_apply, Prog.ite_apply]
  rw [if_neg (show s.channels.length ≠ 0 by omega)]
  exact ht

/-! ## However it ends -/

/-- After `on_socket_close` the state is closed, and the promise of the connection is as it was before. -/
theorem onSocketClose_leaves (s : ConnectionManager) : (onSocketClose s).Leaves fun t =>
    t.state = .closedState ∧ t.connectionClosedPromise = s.connectionClosedPromise :=
  (toldClosing_onSocketClose s).imp fun _ h => ⟨h.state, h.promise⟩

end ConnectionManager

/-! ## Steps of the machine -/

namespace ConnectionManager.Calm

variable {Γ : Env} {s t : ConnectionManager}

theorem of_wrote (h : s.Wrote t) : Calm s t := by
  refine of_channels_eq h.state h.promise h.channels fun i => ?_
  obtain ⟨frs, hfrs⟩ := h.calls
  have hzero : (frs.map Call.beginWriteFrame).count (.closeAsync i) = 0 := List.count_eq_zero.mpr (by simp)
  rw [hfrs, List.count_append, hzero, Nat.add_zero]

theorem of_buffered (h : s.Buffered t) : Calm s t := by
  obtain ⟨builder, reads, rfl⟩ := h
  exact of_channels_eq rfl rfl rfl fun _ => rfl

theorem of_noteFrame (fr : Frame) (s : ConnectionManager) : Calm s (s.noteFrame fr) := by
  refine of_channels_eq rfl rfl rfl fun i => ?_
  exact List.count_append.trans (Nat.add_zero _)

theorem of_noteDead (fr : Frame) (s : ConnectionManager) : Calm s (s.noteDead fr) := by
  refine of_channels_eq rfl rfl rfl fun i => ?_
  exact List.count_append.trans (Nat.add_zero _)

theorem of_dispatched {fr : Frame} (h : Dispatched Γ fr s t) : Calm s t := by
  cases h with
  | channel hc hd ht =>
    subst ht
    have hnoted := of_noteFrame fr s
    exact trans_of Calm hnoted (setChannel (s := s.noteFrame fr) hc (ChannelImpl.sameClosing_of_processFrame Γ hd))
  | channel0 hl ht =>
    subst ht
    exact of_noteFrame fr s
  | dead hl ht => exact trans_of Calm (of_noteDead fr s) (of_wrote ht)

theorem of_received (h : Received Γ s t) : Calm s t := by
  cases h with
  | buffered h => exact of_buffered h
  | dispatched hs h ht => exact trans_of Calm (of_buffered hs) (trans_of Calm (of_dispatched h) (of_buffered ht))

theorem of_opening {r : ConnectionRun} (h : Opening Γ s r) : Calm s r.manager := by
  cases h with
  | outOfChannels h hr =>
    subst hr
    exact of_channels_eq rfl rfl rfl fun _ => rfl
  | opened h hopen ht hr =>
    subst hr
    refine trans_of Calm (push (Nat.not_lt.mpr h)) (trans_of Calm ?_ (of_wrote ht))
    exact of_channels_eq rfl rfl rfl fun _ => rfl
  | lost h hopen e hr =>
    have hat : s.pushChannel.channelAt s.channels.length = some (.create (UInt16.ofNat s.channels.length)) :=
      channelAt_eq_some.mpr (live_eq_some.mpr List.getElem?_concat_length)
    rw [hr]
    refine trans_of Calm (push (Nat.not_lt.mpr h)) (trans_of Calm (expire (s := s.pushChannel) hat) ?_)
    exact of_channels_eq rfl rfl (set_last _ _ _).symm fun _ => rfl
  | thrown h hopen he hr =>
    rw [hr]
    refine trans_of Calm (push (Nat.not_lt.mpr h)) ?_
    exact of_channels_eq rfl rfl rfl fun _ => rfl

end ConnectionManager.Calm

namespace ConnectionRun

variable {Γ : Env}

theorem calm_runStartOpenChannel (Γ : Env) : Prog.Within ConnectionManager.Calm (ConnectionManager.runStartOpenChannel Γ) := by
  intro s
  have hopening : ∀ {r}, afterHandler .startOpenChannel (ConnectionManager.runStartOpenChannel Γ s) = some r →
      s.Calm r.manager := fun h => .of_opening (ConnectionManager.opening_runStartOpenChannel h)
  cases h : ConnectionManager.runStartOpenChannel Γ s with
  | ok a t => exact hopening (congrArg _ h)
  | throws ex t => exact hopening (congrArg _ h)
  | undefined => trivial

/-- What a step can be: a calm handler of the io_service thread, something calm that is no handler, or a failing completion,
which runs `on_socket_close`. -/
inductive Kind (e : ConnectionEvent) (m : ConnectionManager) (r : ConnectionRun) : Prop where
  | handler (x : Prog Exception ConnectionManager Unit) (m' : ConnectionManager) (he : e.isError = false)
    (hx : Prog.Within ConnectionManager.Calm x) (hm : m.Calm m') (h : afterHandler e (x m') = some r)
  | outside (he : e.isError = false) (hm : m.Calm r.manager) (h : r.escaped = none)
  | closing (m' : ConnectionManager) (he : e.isError = true) (h : afterHandler e (ConnectionManager.onSocketClose m') = some r)
    (hchannels : m'.channels = m.channels) (hcalls : m'.calls = m.calls)
    (hpromise : m'.connectionClosedPromise = m.connectionClosedPromise)

/-- A call of a user is outside the io_service thread. -/
theorem Kind.ofUser {α : Type} {e : ConnectionEvent} {x : Prog Exception ConnectionManager α} {m : ConnectionManager}
    {r : ConnectionRun} (he : e.isError = false) (hx : Prog.Within ConnectionManager.Calm x) (h : afterUser (x m) = some r) :
    Kind e m r := by
  have hm := hx m
  cases hxm : x m with
  | ok a m' =>
    rw [hxm] at h hm
    cases h
    exact .outside he hm rfl
  | throws ex m' =>
    rw [hxm] at h hm
    cases h
    exact .outside he hm rfl
  | undefined =>
    rw [hxm] at h
    cases h

/-- Every step is of one of the three kinds. -/
theorem kind_of_next {m : ConnectionManager} {e : ConnectionEvent} {r : ConnectionRun} (h : next Γ m e = some r) :
    Kind e m r := by
  cases e with
  | beginWriteFrame fr =>
    exact .handler _ m rfl ((ConnectionManager.wrote_runBeginWriteFrame Γ fr).mono fun _ _ => .of_wrote)
      (refl_of ConnectionManager.Calm m) h
  | startOpenChannel => exact .handler _ m rfl (calm_runStartOpenChannel Γ) (refl_of ConnectionManager.Calm m) h
  | transmit i =>
    obtain ⟨m', hm', rfl⟩ := Option.map_eq_some_iff.mp h
    exact .outside rfl (.of_wrote (ConnectionManager.wrote_of_transmit hm')) rfl
  | writeDone i ok =>
    simp only [next] at h
    split at h
    · split at h
      · cases h
      · cases ok with
        | true =>
          refine .handler _ _ rfl ((ConnectionManager.wrote_onWriteFrame Γ).mono fun _ _ => .of_wrote) ?_ h
          exact .of_channels_eq rfl rfl rfl fun _ => rfl
        | false => exact .closing _ rfl h rfl rfl rfl
    · cases h
  | readDone i bytes =>
    simp only [next] at h
    split at h
    · rename_i r bytes _
      split at h
      · cases h
      · have hcalm : Prog.Within ConnectionManager.Calm (r.onDone Γ true) := fun s =>
          (ConnectionManager.received_onDone Γ r s).imp fun _ => .of_received
        refine .handler _ _ rfl hcalm ?_ h
        exact .of_channels_eq rfl rfl rfl fun _ => rfl
    · rename_i r _
      cases r with
      | header => exact .closing _ rfl h rfl rfl rfl
      | body n k => exact .closing _ rfl h rfl rfl rfl
    · cases h
  | destroyChannel i =>
    exact .ofUser rfl ((ChannelImpl.destroyed_destroy Γ).zoom fun _ _ _ hc _ => .expire hc) h
  | beginRpc i method classId methodId =>
    refine .ofUser rfl (Prog.Within.zoom (ChannelImpl.within_beginRpc Γ method classId methodId) ?_) h
    exact fun _ _ _ hc hs => .setChannel hc hs

/-- A step that is not a failing completion is calm. -/
theorem calm_of_next {m : ConnectionManager} {e : ConnectionEvent} {r : ConnectionRun} (he : e.isError = false)
    (h : next Γ m e = some r) : m.Calm r.manager := by
  cases kind_of_next h with
  | handler x m' _ hx hm h => exact trans_of ConnectionManager.Calm hm (afterHandler_leaves h (hx m'))
  | outside _ hm _ => exact hm
  | closing m' he' =>
    rw [he] at he'
    cases he'

/-- The exception that ends a run left the handler of its last event. -/
theorem escaped_of_next {m : ConnectionManager} {e e' : ConnectionEvent} {ex : Exception} {r : ConnectionRun}
    (h : next Γ m e = some r) (hr : r.escaped = some (e', ex)) : e' = e := by
  have hhandler : ∀ {o : Outcome Exception ConnectionManager Unit}, afterHandler e o = some r → e' = e := by
    intro o ho
    cases o with
    | ok a m' =>
      cases ho
      cases hr
    | throws ex m' =>
      cases ho
      cases hr
      rfl
    | undefined => cases ho
  cases kind_of_next h with
  | handler _ _ _ _ _ h => exact hhandler h
  | outside _ _ h =>
    rw [h] at hr
    cases hr
  | closing _ _ h => exact hhandler h

end ConnectionRun

end Amqpp
