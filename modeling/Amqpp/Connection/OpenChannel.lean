import Amqpp.Connection.Numbering

/-!
# Opening a channel

`connection_impl::open_channel`: a user thread waits for the new channel, and then for the first of two futures. What the
frames that are delivered to the new channel make of the promise behind the first one.
-/

namespace Amqpp

/-- The promises behind the two futures that `open_channel` waits for: `m_channel_opened_promise` of the new channel and
`m_connection_closed_promise`. -/
inductive OpenPromiseId where
  | channelOpened | connectionClosed
  deriving DecidableEq, Repr

/-- The frame that the call delivers to the handler at an index. -/
def Call.deliveredTo (i : Nat) : Call → Option Frame
  | processFrame j fr => if j = i then some fr else none
  | _ => none

/-- A user thread that has the channel at an index uses it or drops it. -/
def ConnectionEvent.uses (i : Nat) : ConnectionEvent → Bool
  | .destroyChannel j | .beginRpc j .. => j == i
  | _ => false

/-- The frame is a method frame, and is read as a `channel.open_ok`. -/
def Env.isOpenOk (Γ : Env) (fr : Frame) : Bool :=
  match Γ.spec.readFrame fr with
  | .ok m => fr.type = .method ∧ m.classId = Γ.channel.index ∧ m.desc.index = Γ.channelOpenOk.index
  | .error _ => false

/-- What the first frame makes of the opened promise. -/
def Env.openResult (Γ : Env) (fr : Frame) : Promise Exception Bool :=
  if Γ.isOpenOk fr then .value true else .exception .sliced

namespace ConnectionManager

/-- The frames delivered to the handler at an index so far. -/
def delivered (i : Nat) (s : ConnectionManager) : List Frame := s.calls.filterMap (Call.deliveredTo i)

/-- Whether a promise that `open_channel` waits for is satisfied. -/
def opensSatisfied (i : Nat) (s : ConnectionManager) : OpenPromiseId → Bool
  | .channelOpened => (s.channelAt i).any fun c => c.channelOpenedPromise.isSatisfied
  | .connectionClosed => s.connectionClosedPromise.isSatisfied

/-- The `wait_for_any` of `open_channel`, for the channel at an index: `none` while it waits. -/
def openWait (i : Nat) (s : ConnectionManager) : Option Nat :=
  Future.waitForAny (s.opensSatisfied i) [⟨some .channelOpened⟩, ⟨some .connectionClosed⟩]

/-- `open_channel` from its `get` on the promise of `begin_open_channel` on: `none` while it waits. The result of
`wait_for_any` is not looked at. -/
def openChannel (promise : Nat) (s : ConnectionManager) : Option (Except Exception Nat) :=
  match s.channelPromises[promise]? with
  | some (.value newChannel) => (s.openWait newChannel).map fun _res => .ok newChannel
  | some (.exception e) => some (.error e)
  | _ => none

end ConnectionManager

/-! ## The first frame -/

namespace ChannelImpl

variable (Γ : Env)

/-- `process_open`, the first time. -/
theorem processOpen_of_unset {s : ChannelImpl} (h : s.channelOpenedPromise = .unset) (fr : Frame) :
    (Γ.isOpenOk fr = true ∧ processOpen Γ fr s = .ok () { s with channelOpenedPromise := .value true }) ∨
      Γ.isOpenOk fr = false ∧ ∃ e, IsHandlerError e ∧
        processOpen Γ fr s = .throws e { s with channelOpenedPromise := .exception .sliced } := by
  have hvalue : updateOpened (setValue true) s = .ok { s with channelOpenedPromise := .value true } := by
    unfold updateOpened
    rw [h]
    rfl
  have hexc : updateOpened setException s = .ok { s with channelOpenedPromise := .exception .sliced } := by
    unfold updateOpened
    rw [h]
    rfl
  unfold processOpen awaitMethod Env.isOpenOk
  rcases hread : Γ.spec.readFrame fr with e | m
  · by_cases htype : fr.type = .method
    · exact Or.inr ⟨rfl, e, Or.inr (Γ.spec.readFrame_isReadError hread), by simp [htype, Prog.update_of_ok hexc]⟩
    · exact Or.inr ⟨rfl, .connectionException, Or.inl rfl, by simp [htype, Prog.update_of_ok hexc]⟩
  · by_cases htype : fr.type = .method
    · by_cases hids : m.classId = Γ.channel.index ∧ m.desc.index = Γ.channelOpenOk.index
      · exact Or.inl (by simp [htype, hids, Prog.update_of_ok hvalue])
      · exact Or.inr ⟨by simp [hids], .connectionException, Or.inl rfl, by simp [htype, hids, Prog.update_of_ok hexc]⟩
    · exact Or.inr ⟨by simp [htype], .connectionException, Or.inl rfl, by simp [htype, Prog.update_of_ok hexc]⟩

/-- A channel that waits to be opened gives its promise a result on the first frame, and keeps it on all others. -/
theorem processFrame_processOpen {s : ChannelImpl} {fr : Frame} (hch : fr.channel = s.channelId) (hc : s.continuation = .processOpen) :
    (processFrame Γ fr s).Ends
      (· = if s.channelOpenedPromise.isSatisfied then s else { s with channelOpenedPromise := Γ.openResult fr }) := by
  have hrun : runContinuation Γ fr s = processOpen Γ fr s := by
    unfold runContinuation
    simp only [Prog.bind_apply, Prog.get_apply, hc]
  cases hsat : s.channelOpenedPromise.isSatisfied with
  | true =>
    rw [processFrame_of_satisfied Γ hch (p := .channelOpened) (by rw [hc]; rfl) hsat]
    exact rfl
  | false =>
    unfold Env.openResult
    rcases processOpen_of_unset Γ (Promise.eq_unset hsat) fr with ⟨hok, h⟩ | ⟨hok, e, he, h⟩
    · rw [processFrame_of_ok Γ hch (hrun.trans h), hok]
      exact rfl
    · rw [processFrame_of_throws Γ hch he (hrun.trans h), hok]
      exact rfl

end ChannelImpl

/-! ## One handler over a step -/

namespace ConnectionManager

/-- What a step does to a channel at an index that no user thread uses: nothing but perhaps a call of `close_async`, or it
delivers a frame. -/
inductive AtChannel (Γ : Env) (i : Nat) (c : ChannelImpl) (s t : ConnectionManager) : Prop where
  | kept (hd : t.delivered i = s.delivered i) (p : Promise Exception Nat) (ht : t.channelAt i = some { c with channelClosedPromise := p })
  | frame {fr : Frame} {d : ChannelImpl} (hch : fr.channel.toNat = i) (hp : (ChannelImpl.processFrame Γ fr c).Ends (· = d))
      (hd : t.delivered i = s.delivered i ++ [fr]) (ht : t.channelAt i = some d)

theorem Wrote.delivered {i : Nat} {s t : ConnectionManager} (h : s.Wrote t) : t.delivered i = s.delivered i :=
  h.filterMap_calls _ fun _ => rfl

theorem ToldClosing.delivered {i : Nat} {s t : ConnectionManager} (h : s.ToldClosing t) : t.delivered i = s.delivered i :=
  h.filterMap_calls _ fun _ => rfl

theorem delivered_noteFrame_self (fr : Frame) (s : ConnectionManager) :
    (s.noteFrame fr).delivered fr.channel.toNat = s.delivered fr.channel.toNat ++ [fr] := by
  have hto : Call.deliveredTo fr.channel.toNat (.processFrame fr.channel.toNat fr) = some fr := if_pos rfl
  unfold delivered noteFrame
  rw [List.filterMap_append, List.filterMap_cons_some hto]
  rfl

theorem delivered_noteFrame_of_ne {i : Nat} {fr : Frame} (h : fr.channel.toNat ≠ i) (s : ConnectionManager) :
    (s.noteFrame fr).delivered i = s.delivered i := by
  have hto : Call.deliveredTo i (.processFrame fr.channel.toNat fr) = none := if_neg h
  unfold delivered noteFrame
  rw [List.filterMap_append, List.filterMap_cons_none hto]
  exact List.append_nil _

theorem delivered_noteDead (i : Nat) (fr : Frame) (s : ConnectionManager) : (s.noteDead fr).delivered i = s.delivered i := by
  unfold delivered noteDead
  rw [List.filterMap_append]
  exact List.append_nil _

/-- A frame is dispatched to a live handler only. -/
theorem Dispatched.delivered_of_live_eq_none {Γ : Env} {i : Nat} {fr : Frame} {s t : ConnectionManager} (h : Dispatched Γ fr s t)
    (hl : s.live i = none) : t.delivered i = s.delivered i := by
  have hne : ∀ {hd}, s.live fr.channel.toNat = some hd → fr.channel.toNat ≠ i := by
    rintro hd hlive rfl
    rw [hl] at hlive
    cases hlive
  cases h with
  | channel hc hd ht =>
    subst ht
    exact delivered_noteFrame_of_ne (hne (channelAt_eq_some.mp hc)) s
  | channel0 hl ht =>
    subst ht
    exact delivered_noteFrame_of_ne (hne hl) s
  | dead hl ht => exact ht.delivered.trans (delivered_noteDead i fr s)

/-- Where there is no handler, a step delivers nothing. -/
theorem Effect.delivered_of_live_eq_none {Γ : Env} {i : Nat} {s : ConnectionManager} {e : ConnectionEvent} {r : ConnectionRun}
    (h : Effect Γ s e r) (hl : s.live i = none) : r.manager.delivered i = s.delivered i := by
  cases h with
  | wrote _ h => exact h.delivered
  | opening h =>
    cases h with
    | outOfChannels h hr => rw [hr]; rfl
    | opened h hopen ht hr => rw [hr]; exact ht.delivered
    | lost h hopen e hr => rw [hr]; rfl
    | thrown h hopen he hr => rw [hr]; rfl
  | received h =>
    cases h with
    | buffered h =>
      obtain ⟨builder, reads, hr⟩ := h
      rw [hr]
      rfl
    | dispatched hs h ht =>
      obtain ⟨builder, reads, rfl⟩ := hs
      obtain ⟨builder', reads', hr⟩ := ht
      rw [hr]
      exact h.delivered_of_live_eq_none hl
  | writeFailed h => exact h.delivered
  | readFailed h => exact h.delivered
  | expired hc hr => rw [hr]; rfl
  | requested hc hd hr => rw [hr]; rfl

namespace AtChannel

variable {Γ : Env} {i : Nat} {c : ChannelImpl} {s t : ConnectionManager}

/-- Only the calls and the handlers count. -/
theorem of_eq {s' t' : ConnectionManager} (h : AtChannel Γ i c s' t') (hs : s'.calls = s.calls) (ht : t.calls = t'.calls)
    (hl : t.channels = t'.channels) : AtChannel Γ i c s t := by
  have hs' : s'.delivered i = s.delivered i := by rw [delivered, hs, delivered]
  have ht' : t.delivered i = t'.delivered i := by rw [delivered, ht, delivered]
  have hat : t.channelAt i = t'.channelAt i := by rw [channelAt, hl, channelAt]
  cases h with
  | kept hd p h => exact .kept (ht'.trans (hd.trans hs')) p (hat.trans h)
  | frame hch hp hd h => exact .frame hch hp (ht'.trans (hs' ▸ hd)) (hat.trans h)

variable (hc : s.channelAt i = some c)

include hc

theorem of_live_eq (hl : t.live i = s.live i) (hd : t.delivered i = s.delivered i) : AtChannel Γ i c s t :=
  .kept hd c.channelClosedPromise (channelAt_eq_some.mpr (hl.trans (channelAt_eq_some.mp hc)))

theorem of_toldClosing (h : s.ToldClosing t) : AtChannel Γ i c s t := by
  have hl := channelAt_eq_some.mp hc
  rcases h.live i with heq | ⟨d, p, hs, ht⟩
  · exact of_live_eq hc heq h.delivered
  · rw [hl] at hs
    cases hs
    exact .kept h.delivered p (channelAt_eq_some.mpr ht)

theorem of_dispatched {fr : Frame} (h : Dispatched Γ fr s t) : AtChannel Γ i c s t := by
  have hl := channelAt_eq_some.mp hc
  cases h with
  | channel hc' hd ht =>
    rename_i c' d
    subst ht
    have hset := live_set (t := (s.noteFrame fr).setChannel fr.channel.toNat d) (lt_of_live (channelAt_eq_some.mp hc')) rfl i
    by_cases hi : fr.channel.toNat = i
    · subst hi
      rw [hc] at hc'
      cases hc'
      exact .frame rfl hd (delivered_noteFrame_self fr s) (channelAt_eq_some.mpr (hset.trans (if_pos rfl)))
    · exact of_live_eq hc (hset.trans (if_neg (Ne.symm hi))) (delivered_noteFrame_of_ne hi s)
  | channel0 hl0 ht =>
    subst ht
    have hi : fr.channel.toNat ≠ i := by
      rintro rfl
      rw [hl] at hl0
      cases hl0
    exact of_live_eq hc rfl (delivered_noteFrame_of_ne hi s)
  | dead hl0 ht =>
    refine of_live_eq hc ?_ (ht.delivered.trans (delivered_noteDead i fr s))
    rw [live, ht.channels]
    rfl

theorem of_opening {r : ConnectionRun} (h : Opening Γ s r) : AtChannel Γ i c s r.manager := by
  have hlt := lt_of_live (channelAt_eq_some.mp hc)
  have hlive : ∀ {k : Option FrameHandler}, r.manager.channels = s.channels ++ [k] → r.manager.live i = s.live i := by
    intro k hk
    rw [live, live, hk, List.getElem?_append_left hlt]
  cases h with
  | outOfChannels h hr =>
    subst hr
    exact of_live_eq hc rfl rfl
  | opened h hopen ht hr =>
    subst hr
    exact of_live_eq hc (hlive ht.channels) ht.delivered
  | lost h hopen e hr => exact of_live_eq hc (hlive (by rw [hr])) (by rw [hr]; rfl)
  | thrown h hopen he hr => exact of_live_eq hc (hlive (by rw [hr]; rfl)) (by rw [hr]; rfl)

/-- One step, when no user thread uses the channel. -/
theorem of_effect {e : ConnectionEvent} {r : ConnectionRun} (he : e.uses i = false) (h : Effect Γ s e r) :
    AtChannel Γ i c s r.manager := by
  cases h with
  | wrote _ h => exact of_live_eq hc (by rw [live, h.channels]; rfl) h.delivered
  | opening h => exact of_opening hc h
  | received h =>
    cases h with
    | buffered h =>
      obtain ⟨builder, reads, hr⟩ := h
      exact of_live_eq hc (by rw [hr]; rfl) (by rw [hr]; rfl)
    | dispatched hs h ht =>
      obtain ⟨builder, reads, rfl⟩ := hs
      obtain ⟨builder', reads', hr⟩ := ht
      exact (of_dispatched (s := { s with builder := builder, reads := reads }) hc h).of_eq rfl (by rw [hr]) (by rw [hr])
  | writeFailed h =>
    rename_i j
    exact (of_toldClosing (s := { s with writes := s.writes.eraseIdx j, state := .closedState }) hc h).of_eq rfl rfl rfl
  | readFailed h =>
    rename_i j
    exact (of_toldClosing (s := { s with reads := s.reads.eraseIdx j, state := .closedState }) hc h).of_eq rfl rfl rfl
  | expired hc' hr =>
    have hne : i ≠ _ := (beq_eq_false_iff_ne.mp he).symm
    refine of_live_eq hc ?_ (by rw [hr]; rfl)
    rw [hr, live_set (t := { s with channels := s.channels.set _ none }) (lt_of_live (channelAt_eq_some.mp hc')) rfl, if_neg hne]
  | requested hc' hd hr =>
    have hne : i ≠ _ := (beq_eq_false_iff_ne.mp he).symm
    refine of_live_eq hc ?_ (by rw [hr]; rfl)
    rw [hr, live_set (t := s.setChannel _ _) (lt_of_live (channelAt_eq_some.mp hc')) rfl, if_neg hne]

end AtChannel

end ConnectionManager

end Amqpp
