import Amqpp.Connection.OpenChannel

/-!
# Opening a channel

`open_channel` takes the channel for open as soon as its wait is over, whether the promise it waited for holds a value or an
exception. It tells an opened channel from another exactly when the first frame on the new channel is a `channel.open_ok`.
-/

namespace Amqpp

namespace ConnectionManager

/-- `open_channel` returns opened channels only: the channel it returns was sent a `channel.open_ok` and its opened promise
holds a value, and when that promise holds an exception, or the connection was closed first, it throws. -/
structure OpensOnly (Γ : Env) (promise : Nat) (s : ConnectionManager) : Prop where
  returned : ∀ i, s.openChannel promise = some (.ok i) →
    (∃ fr ∈ s.delivered i, Γ.isOpenOk fr = true) ∧ ∃ c v, s.channelAt i = some c ∧ c.channelOpenedPromise = .value v
  failed : ∀ i c ex, s.channelPromises[promise]? = some (.value i) → s.channelAt i = some c →
    c.channelOpenedPromise = .exception ex → ∃ ex', s.openChannel promise = some (.error ex')
  closed : ∀ i, s.channelPromises[promise]? = some (.value i) → s.openWait i = some 1 →
    ∃ ex', s.openChannel promise = some (.error ex')

/-- The first frame that came for the new channel, if one came, is a method frame with a `channel.open_ok`. -/
def FirstIsOpenOk (Γ : Env) (promise : Nat) (s : ConnectionManager) : Prop :=
  ∀ i fr, s.channelPromises[promise]? = some (.value i) → (s.delivered i).head? = some fr → Γ.isOpenOk fr = true

end ConnectionManager

namespace OpenChannelAux

open ConnectionManager

variable {Γ : Env}

/-- What the frames that came for a channel made of its opened promise. -/
def openedBy (Γ : Env) : List Frame → Promise Exception Bool
  | [] => .unset
  | fr :: _ => Γ.openResult fr

theorem isSatisfied_openResult (fr : Frame) : (Γ.openResult fr).isSatisfied = true := by
  unfold Env.openResult
  split <;> rfl

/-- There is no new channel. -/
def NoChannel (promise : Nat) (s : ConnectionManager) : Prop := ∃ q, s.channelPromises[promise]? = some q ∧ q.value? = none

/-- The new channel waits for its first frame, or had it. -/
structure HasChannel (Γ : Env) (promise i : Nat) (s : ConnectionManager) : Prop where
  promise : s.channelPromises[promise]? = some (.value i)
  closed : s.connectionClosedPromise = .unset
  channel : ∃ c, s.channelAt i = some c ∧ c.channelId.toNat = i ∧ c.continuation = .processOpen ∧
    c.channelOpenedPromise = openedBy Γ (s.delivered i)

/-! ## The steps -/

/-- Where the table ends no frame was delivered. -/
theorem inductive_delivered (Γ : Env) : (connectionMachine Γ).Inductive fun r =>
    r.manager.connectionClosedPromise = .unset ∧ ∀ i, r.manager.channels.length ≤ i → r.manager.delivered i = [] := by
  refine ⟨⟨rfl, fun _ _ => rfl⟩, fun r e r' ⟨hclosed, hr⟩ hstep => ?_⟩
  have heffect := ConnectionRun.effect_of_next (ConnectionRun.next_of_step hstep).2
  refine ⟨heffect.closedPromise.trans hclosed, fun i hi => ?_⟩
  have hle := Nat.le_trans (Evolves.of_effect heffect).length hi
  have hnone : r.manager.live i = none := by rw [live, List.getElem?_eq_none hle]; rfl
  exact (heffect.delivered_of_live_eq_none hnone).trans (hr i hle)

/-- What `start_open_channel` leaves. -/
theorem of_opening {s : ConnectionManager} {r : ConnectionRun} (hclosed : s.connectionClosedPromise = .unset)
    (hdelivered : s.delivered s.channels.length = []) (h : Opening Γ s r) :
    NoChannel s.channelPromises.length r.manager ∨ HasChannel Γ s.channelPromises.length s.channels.length r.manager := by
  cases h with
  | outOfChannels h hr =>
    subst hr
    exact Or.inl ⟨_, List.getElem?_concat_length, rfl⟩
  | opened h hopen ht hr =>
    rename_i t
    subst hr
    have hat : t.channelAt s.channels.length = some (.create (UInt16.ofNat s.channels.length)) := by
      rw [channelAt_eq_some, live_eq_some, ht.channels]
      exact List.getElem?_concat_length
    have hid : (UInt16.ofNat s.channels.length).toNat = s.channels.length :=
      UInt16.toNat_ofNat_of_lt' (show s.channels.length < 65536 by omega)
    have hdel : t.delivered s.channels.length = [] := ht.delivered.trans hdelivered
    refine Or.inr ⟨?_, ht.promise.trans hclosed, _, hat, hid, rfl, ?_⟩
    · rw [ht.channelPromises]
      exact List.getElem?_concat_length
    · rw [hdel]
      rfl
  | lost h hopen e hr =>
    refine Or.inl ⟨.exception e, ?_, rfl⟩
    rw [hr]
    exact List.getElem?_concat_length
  | thrown h hopen he hr =>
    refine Or.inl ⟨.unset, ?_, rfl⟩
    rw [hr]
    exact List.getElem?_concat_length

/-- A promise that is there stays as it is. -/
theorem getElem?_channelPromises {s t : ConnectionManager} {promise : Nat} {q : Promise Exception Nat} (h : Evolves Γ s t)
    (hq : s.channelPromises[promise]? = some q) : t.channelPromises[promise]? = some q := by
  obtain ⟨ps, hps, -⟩ := h.promises
  rw [hps, List.getElem?_append_left (List.getElem?_eq_some_iff.mp hq).1, hq]

/-- A frame for the channel, or nothing. -/
theorem hasChannel_of_effect {promise i : Nat} {s : ConnectionManager} {e : ConnectionEvent} {r : ConnectionRun}
    (hs : HasChannel Γ promise i s) (he : e.uses i = false) (h : Effect Γ s e r) : HasChannel Γ promise i r.manager := by
  obtain ⟨c, hc, hid, hcont, hopened⟩ := hs.channel
  refine ⟨getElem?_channelPromises (Evolves.of_effect h) hs.promise, h.closedPromise.trans hs.closed, ?_⟩
  cases AtChannel.of_effect hc he h with
  | kept hd p ht =>
    rw [hd]
    exact ⟨_, ht, hid, hcont, hopened⟩
  | frame hch hp hd ht =>
    rename_i fr d
    have hfor : fr.channel = c.channelId := UInt16.toNat_inj.mp (hch.trans hid.symm)
    obtain rfl := Outcome.Ends.unique hp (ChannelImpl.processFrame_processOpen Γ hfor hcont)
    rw [hd]
    -- The first frame decides, and the others change nothing.
    rcases hdel : s.delivered i with _ | ⟨fr₀, frs⟩
    · rw [hdel] at hopened
      rw [hopened] at ht
      exact ⟨_, ht, hid, hcont, rfl⟩
    · rw [hdel] at hopened
      rw [hopened, openedBy, isSatisfied_openResult] at ht
      exact ⟨_, ht, hid, hcont, hopened⟩

/-! ## What the user sees -/

theorem opensOnly_of_noChannel {promise : Nat} {s : ConnectionManager} (h : NoChannel promise s) :
    s.OpensOnly Γ promise ∧ s.FirstIsOpenOk Γ promise := by
  obtain ⟨q, hq, hvalue⟩ := h
  have hne : ∀ i, s.channelPromises[promise]? ≠ some (.value i) := by
    intro i hi
    rw [hq] at hi
    cases hi
    cases hvalue
  refine ⟨⟨fun i hi => ?_, fun i c ex hi => absurd hi (hne i), fun i hi => absurd hi (hne i)⟩, fun i fr hi => absurd hi (hne i)⟩
  unfold openChannel at hi
  cases q with
  | unset =>
    rw [hq] at hi
    cases hi
  | value j => exact absurd hq (hne j)
  | exception e =>
    rw [hq] at hi
    cases hi

/-- The wait is over once the opened promise is satisfied. -/
theorem openChannel_of_hasChannel {promise i : Nat} {s : ConnectionManager} (h : HasChannel Γ promise i s) :
    s.openWait i = (s.delivered i).head?.map (fun _ => 0) ∧
      s.openChannel promise = (s.delivered i).head?.map fun _ => .ok i := by
  obtain ⟨c, hc, -, -, hopened⟩ := h.channel
  have hwait : s.openWait i = (s.delivered i).head?.map (fun _ => 0) := by
    have hready : s.opensSatisfied i .channelOpened = (openedBy Γ (s.delivered i)).isSatisfied := by
      rw [opensSatisfied, hc, Option.any_some, hopened]
    have hclosed : s.opensSatisfied i .connectionClosed = false := by
      rw [opensSatisfied, h.closed]
      rfl
    unfold openWait
    cases hdel : s.delivered i with
    | nil =>
      rw [hdel] at hready
      simp [Future.waitForAny, Future.isReady, List.findIdx?_cons, hready, hclosed, openedBy, Promise.isSatisfied]
    | cons fr frs =>
      rw [hdel] at hready
      simp [Future.waitForAny, Future.isReady, List.findIdx?_cons, hready, openedBy, isSatisfied_openResult]
  refine ⟨hwait, ?_⟩
  unfold openChannel
  rw [h.promise]
  simp only [hwait, Option.map_map]
  rfl

theorem opensOnly_iff_of_hasChannel {promise i : Nat} {s : ConnectionManager} (h : HasChannel Γ promise i s) :
    s.OpensOnly Γ promise ↔ s.FirstIsOpenOk Γ promise := by
  obtain ⟨hwait, hresult⟩ := openChannel_of_hasChannel h
  obtain ⟨c, hc, -, -, hopened⟩ := h.channel
  have hi : ∀ {j}, s.channelPromises[promise]? = some (.value j) → j = i := by
    intro j hj
    rw [h.promise] at hj
    cases hj
    rfl
  cases hdel : s.delivered i with
  | nil =>
    rw [hdel] at hwait hresult hopened
    refine iff_of_true ⟨fun j hj => ?_, fun j d ex hj hd hex => ?_, fun j hj hone => ?_⟩ fun j fr hj hfr => ?_
    · rw [hresult] at hj
      cases hj
    · rw [hi hj, hc] at hd
      cases hd
      rw [hopened] at hex
      cases hex
    · rw [hi hj, hwait] at hone
      cases hone
    · rw [hi hj, hdel] at hfr
      cases hfr
  | cons fr frs =>
    have hmem : fr ∈ s.delivered i := by
      rw [hdel]
      exact List.mem_cons_self
    rw [hdel] at hwait hresult hopened
    constructor
    · intro hopens j fr' hj hfr
      rw [hi hj, hdel] at hfr
      cases hfr
      -- The channel is returned, so its promise holds a value.
      obtain ⟨-, d, v, hd, hv⟩ := hopens.returned i hresult
      rw [hc] at hd
      cases hd
      rw [hopened, openedBy, Env.openResult] at hv
      split at hv
      · rename_i hok
        exact hok
      · cases hv
    · intro hfirst
      have hok : Γ.isOpenOk fr = true := hfirst i fr h.promise (by rw [hdel]; rfl)
      have hvalue : c.channelOpenedPromise = .value true := by
        rw [hopened, openedBy, Env.openResult, if_pos hok]
      refine ⟨fun j hj => ?_, fun j d ex hj hd hex => ?_, fun j hj hone => ?_⟩
      · rw [hresult] at hj
        cases hj
        exact ⟨⟨fr, hmem, hok⟩, c, true, hc, hvalue⟩
      · rw [hi hj, hc] at hd
        cases hd
        rw [hvalue] at hex
        cases hex
      · rw [hi hj, hwait] at hone
        cases hone

end OpenChannelAux

open OpenChannelAux ConnectionManager

/-- In every run with a call of `open_channel` that nobody else has the channel of yet, `open_channel` returns opened
channels only exactly when the first frame on the new channel is a `channel.open_ok`. -/
theorem openChannel_opensOnly_iff (Γ : Env) {pre mid : List ConnectionEvent} {s r : ConnectionRun}
    (hs : (connectionMachine Γ).run pre = some s) (h : (connectionMachine Γ).run (pre ++ .startOpenChannel :: mid) = some r)
    (hmid : ∀ e ∈ mid, e.uses s.manager.channels.length = false) :
    r.manager.OpensOnly Γ s.manager.channelPromises.length ↔ r.manager.FirstIsOpenOk Γ s.manager.channelPromises.length := by
  rw [List.append_cons] at h
  obtain ⟨t, ht⟩ := Machine.run_prefix _ h
  obtain ⟨s', hs', hstep⟩ := Machine.run_snoc_eq_some _ |>.mp ht
  obtain rfl : s = s' := Option.some.inj (hs.symm.trans hs')
  obtain ⟨hclosed, hdelivered⟩ := Machine.invariant_of_run _ (inductive_delivered Γ) hs
  have hopening := opening_runStartOpenChannel (ConnectionRun.next_of_step hstep).2
  rcases of_opening hclosed (hdelivered _ (Nat.le_refl _)) hopening with hno | hhas
  · have hr : NoChannel s.manager.channelPromises.length r.manager := by
      obtain ⟨q, hq, hvalue⟩ := hno
      exact ⟨q, getElem?_channelPromises (connectionMachine_evolves ht h) hq, hvalue⟩
    exact iff_of_true (opensOnly_of_noChannel hr).1 (opensOnly_of_noChannel hr).2
  · refine opensOnly_iff_of_hasChannel (i := s.manager.channels.length) ?_
    refine Machine.invariant_from _ (I := fun u => HasChannel Γ _ s.manager.channels.length u.manager) ht hhas ?_ h
    exact fun u e u' he hu hstep =>
      hasChannel_of_effect hu (hmid e he) (ConnectionRun.effect_of_next (ConnectionRun.next_of_step hstep).2)

/-- The broker answers with a `channel.open_ok`. -/
theorem openChannel_opensOnly_openOk :
    ∃ r, (connectionMachine .sample).run [.startOpenChannel, .readDone 0 (some [1, 0, 1, 0, 0, 0, 8, 0]),
        .readDone 0 (some [20, 0, 11, 0, 0, 0, 0, 206])] = some r ∧
      r.manager.openChannel 0 = some (.ok 1) ∧ r.manager.OpensOnly .sample 0 := by
  have hstate : ((connectionMachine .sample).run [.startOpenChannel, .readDone 0 (some [1, 0, 1, 0, 0, 0, 8, 0]),
      .readDone 0 (some [20, 0, 11, 0, 0, 0, 0, 206])]).map (fun r =>
        (r.manager.openChannel 0, r.manager.channelPromises, r.manager.delivered 1)) =
      some (some (.ok 1), [.value 1], [EnvSample.openOkFrame]) := by decide +kernel
  obtain ⟨r, hr, hstate⟩ := Option.map_eq_some_iff.mp hstate
  obtain ⟨hresult, hpromises, hdelivered⟩ : _ ∧ _ ∧ _ := by simpa only [Prod.mk.injEq] using hstate
  have hinit : (connectionMachine .sample).run [] = some ⟨.started, none⟩ := rfl
  refine ⟨r, hr, hresult, (openChannel_opensOnly_iff .sample hinit hr ?_).mpr fun i fr hi hfr => ?_⟩
  · rintro e he
    simp only [List.mem_cons, List.not_mem_nil, or_false] at he
    rcases he with rfl | rfl
    · rfl
    · rfl
  · change r.manager.channelPromises[0]? = _ at hi
    rw [hpromises] at hi
    cases hi
    rw [hdelivered] at hfr
    cases hfr
    decide +kernel

/-- The broker refuses with a `channel.close`: the opened promise holds an exception, and `open_channel` returns the
channel. -/
theorem refused_channel_returned :
    ∃ r, (connectionMachine .sample).run [.startOpenChannel, .readDone 0 (some [1, 0, 1, 0, 0, 0, 11, 0]),
        .readDone 0 (some [20, 0, 40, 0, 200, 0, 0, 0, 0, 0, 206])] = some r ∧
      r.manager.delivered 1 = [EnvSample.closeFrame 1] ∧ r.manager.openChannel 0 = some (.ok 1) ∧ ¬r.manager.OpensOnly .sample 0 := by
  have hstate : ((connectionMachine .sample).run [.startOpenChannel, .readDone 0 (some [1, 0, 1, 0, 0, 0, 11, 0]),
      .readDone 0 (some [20, 0, 40, 0, 200, 0, 0, 0, 0, 0, 206])]).map (fun r =>
        (r.manager.delivered 1, r.manager.openChannel 0, (r.manager.channelAt 1).map (·.channelOpenedPromise))) =
      some ([EnvSample.closeFrame 1], some (.ok 1), some (.exception .sliced)) := by decide +kernel
  obtain ⟨r, hr, hstate⟩ := Option.map_eq_some_iff.mp hstate
  obtain ⟨hdelivered, hresult, hopened⟩ : _ ∧ _ ∧ _ := by simpa only [Prod.mk.injEq] using hstate
  refine ⟨r, hr, hdelivered, hresult, fun h => ?_⟩
  obtain ⟨-, c, v, hc, hv⟩ := h.returned 1 hresult
  rw [hc, Option.map_some, hv] at hopened
  cases hopened

end Amqpp
