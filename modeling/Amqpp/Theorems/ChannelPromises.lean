import Amqpp.Channel.Run

/-!
# The promises that frames satisfy

A handler stays installed after it satisfied its promise, so the next frame satisfies the promise again: the handler's
`catch` block does, whatever the frame is. A run is free of that exactly when each frame finds a handler that has not seen
one yet.
-/

namespace Amqpp

/-- The call is a `begin_rpc` that gets as far as installing its handler: its method can be encoded. -/
def ChannelEvent.Installs (Γ : Env) (channelId : UInt16) : ChannelEvent → Prop
  | .beginRpc method _ _ => ∃ fr, createFromMethod Γ.memory channelId method = .ok fr
  | _ => False

/-- Between any two frames of a run some `begin_rpc` installs its handler. -/
def RpcBetweenFrames (Γ : Env) (channelId : UInt16) (es : List ChannelEvent) : Prop :=
  ∀ pre fr mid fr' post, es = pre ++ .processFrame fr :: (mid ++ .processFrame fr' :: post) →
    ∃ e ∈ mid, e.Installs Γ channelId

namespace ChannelPromisesAux

variable {Γ : Env} {channelId : UInt16}

/-- The promise of the installed handler is not satisfied yet. -/
def Armed (c : ChannelImpl) : Prop := ∃ p, c.continuation.awaits = some p ∧ c.satisfied p = false

/-- What every call of a channel keeps: a handler with a promise is installed, and the future read for the closing belongs
to none. -/
structure Handles (channelId : UInt16) (c : ChannelImpl) : Prop where
  channelId : c.channelId = channelId
  future : c.channelClosedFuture = ⟨none⟩
  awaits : ∃ p, c.continuation.awaits = some p ∧ ∀ i, p = .rpc i → i < c.rpcPromises.length

theorem Handles.not_ready {c : ChannelImpl} (h : Handles channelId c) : c.channelClosedFuture.isReady c.satisfied = false := by
  rw [h.future]
  rfl

/-- The promise of the handler that a request replaces is there. -/
theorem Handles.lt {c : ChannelImpl} (h : Handles channelId c) (i : Nat) (hi : c.continuation.awaits = some (.rpc i)) :
    i < c.rpcPromises.length := by
  obtain ⟨p, hp, hlt⟩ := h.awaits
  exact hlt i (Option.some.inj (hp.symm.trans hi))

theorem handles_create (channelId : UInt16) : Handles channelId (.create channelId) :=
  ⟨rfl, rfl, .channelOpened, rfl, fun i hi => by cases hi⟩

theorem armed_create (channelId : UInt16) : Armed (.create channelId) := ⟨.channelOpened, rfl, rfl⟩

/-- An event is a frame or another call. -/
theorem frame_or_other (e : ChannelEvent) : (∃ fr, e = .processFrame fr) ∨ ∀ fr, e ≠ .processFrame fr := by
  cases e with
  | processFrame fr => exact Or.inl ⟨fr, rfl⟩
  | beginRpc method classId methodId => exact Or.inr nofun
  | closeAsync => exact Or.inr nofun

/-- The promise of the handler decides whether the channel is armed. -/
theorem armed_iff {c : ChannelImpl} {p : PromiseId} (hp : c.continuation.awaits = some p) : Armed c ↔ c.satisfied p = false := by
  constructor
  · rintro ⟨q, hq, hqs⟩
    obtain rfl : p = q := Option.some.inj (hp.symm.trans hq)
    exact hqs
  · exact fun h => ⟨p, hp, h⟩

/-- A frame that finds the promise open: it is satisfied afterwards, and what escapes is no second attempt. -/
theorem step_of_armed {s s' : ChannelRun} {fr : Frame} (hs : Handles channelId s.channel) (ha : Armed s.channel)
    (h : s.step Γ (.processFrame fr) = some s') :
    Handles channelId s'.channel ∧ ¬Armed s'.channel ∧
      (.promiseAlreadySatisfied ∉ s.escaped → .promiseAlreadySatisfied ∉ s'.escaped) := by
  obtain ⟨hch, hafter⟩ := s.step_processFrame Γ h
  obtain ⟨p, hp, hi⟩ := hs.awaits
  have hsame := s.sameClosing_of_step Γ (e := .processFrame fr) (fun he => by cases he) h
  obtain ⟨t, ht, hend⟩ := ChannelImpl.processFrame_of_unset Γ hch hp ((armed_iff hp).mp ha) hi
  have hchan : s'.channel = t ∧ ∃ l, s'.escaped = s.escaped ++ l ∧ .promiseAlreadySatisfied ∉ l := by
    rcases hend with hok | ⟨e, he, hthrows⟩
    · rw [hok] at hafter
      cases hafter
      exact ⟨rfl, [], (List.append_nil _).symm, List.not_mem_nil⟩
    · rw [hthrows] at hafter
      cases hafter
      exact ⟨rfl, [e], rfl, fun hmem => he.ne_promiseAlreadySatisfied (List.mem_singleton.mp hmem).symm⟩
  obtain ⟨rfl, l, hl, hnot⟩ := hchan
  have hp' : s'.channel.continuation.awaits = some p := by rw [ht.continuation, hp]
  refine ⟨⟨hsame.channelId.trans hs.channelId, hsame.channelClosedFuture.trans hs.future, p, hp', ?_⟩, ?_, ?_⟩
  · intro i hpi
    rw [ht.length]
    exact hi i hpi
  · rw [armed_iff hp', ht.satisfied]
    exact Bool.noConfusion
  · intro hesc hmem
    rw [hl, List.mem_append] at hmem
    exact hmem.elim hesc hnot

/-- A frame that finds the promise satisfied changes nothing, and the second attempt escapes. -/
theorem step_of_fired {s s' : ChannelRun} {fr : Frame} (hs : Handles channelId s.channel) (ha : ¬Armed s.channel)
    (h : s.step Γ (.processFrame fr) = some s') :
    Handles channelId s'.channel ∧ ¬Armed s'.channel ∧ .promiseAlreadySatisfied ∈ s'.escaped := by
  obtain ⟨hch, hafter⟩ := s.step_processFrame Γ h
  obtain ⟨p, hp, -⟩ := hs.awaits
  rw [armed_iff hp, Bool.not_eq_false] at ha
  rw [ChannelImpl.processFrame_of_satisfied Γ hch hp ha] at hafter
  cases hafter
  refine ⟨hs, ?_, List.mem_append_right _ (List.mem_singleton_self _)⟩
  rw [armed_iff hp, Bool.not_eq_false]
  exact ha

/-- After a frame the channel is not armed. -/
theorem step_processFrame {s s' : ChannelRun} {fr : Frame} (hs : Handles channelId s.channel)
    (h : s.step Γ (.processFrame fr) = some s') : Handles channelId s'.channel ∧ ¬Armed s'.channel := by
  by_cases ha : Armed s.channel
  · exact ⟨(step_of_armed hs ha h).1, (step_of_armed hs ha h).2.1⟩
  · exact ⟨(step_of_fired hs ha h).1, (step_of_fired hs ha h).2.1⟩

/-- A call that is not a frame lets nothing escape, and arms the channel when it installs a handler. -/
theorem step_other {s s' : ChannelRun} {e : ChannelEvent} (hs : Handles channelId s.channel)
    (he : ∀ fr, e ≠ .processFrame fr) (h : s.step Γ e = some s') :
    Handles channelId s'.channel ∧ s'.escaped = s.escaped ∧
      (Armed s'.channel ↔ Armed s.channel ∨ e.Installs Γ channelId) := by
  cases e with
  | processFrame fr => exact absurd rfl (he fr)
  | beginRpc method classId methodId =>
    change s.after false (ChannelImpl.beginRpc Γ method classId methodId s.channel) = some s' at h
    rcases henc : createFromMethod Γ.memory s.channel.channelId method with e | fr
    · rw [ChannelImpl.beginRpc_of_error Γ hs.not_ready henc] at h
      cases h
      refine ⟨hs, rfl, ⟨Or.inl, ?_⟩⟩
      rintro (ha | ⟨fr, hfr⟩)
      · exact ha
      · rw [← hs.channelId, henc] at hfr
        cases hfr
    · rw [ChannelImpl.beginRpc_of_ok Γ hs.not_ready hs.lt henc] at h
      cases h
      refine ⟨⟨hs.channelId, hs.future, _, rfl, ?_⟩, rfl, ⟨fun _ => Or.inr ⟨fr, ?_⟩, fun _ => ?_⟩⟩
      · intro i hi
        cases hi
        simp
      · rw [← hs.channelId]
        exact henc
      · refine ⟨_, rfl, (ChannelImpl.satisfied_rpc (p := .unset) ?_).trans rfl⟩
        rw [← s.channel.length_dropContinuation]
        exact List.getElem?_concat_length
  | closeAsync =>
    change s.after false (ChannelImpl.closeAsync s.channel) = some s' at h
    cases hsat : s.channel.channelClosedPromise.isSatisfied with
    | true =>
      rw [ChannelImpl.closeAsync_of_satisfied hsat] at h
      cases h
      exact ⟨hs, rfl, ⟨Or.inl, fun h => h.elim id False.elim⟩⟩
    | false =>
      rw [ChannelImpl.closeAsync_of_unset (Promise.eq_unset hsat)] at h
      cases h
      obtain ⟨p, hp, hi⟩ := hs.awaits
      refine ⟨⟨hs.channelId, hs.future, p, hp, hi⟩, rfl, ⟨?_, ?_⟩⟩
      · rintro ⟨q, hq, hqs⟩
        refine Or.inl ⟨q, hq, ?_⟩
        cases q with
        | channelClosed => cases hqs
        | channelOpened => exact hqs
        | rpc i => exact hqs
      · rintro (⟨q, hq, hqs⟩ | hf)
        · refine ⟨q, hq, ?_⟩
          cases q with
          | channelClosed =>
            unfold Continuation.awaits at hq
            split at hq <;> cases hq
          | channelOpened => exact hqs
          | rpc i => exact hqs
        · exact hf.elim

/-- Every frame so far is followed by a `begin_rpc` that installs its handler. -/
def Fresh (Γ : Env) (channelId : UInt16) (es : List ChannelEvent) : Prop :=
  ∀ pre fr mid, es = pre ++ .processFrame fr :: mid → ∃ e ∈ mid, e.Installs Γ channelId

theorem not_fresh_processFrame (es : List ChannelEvent) (fr : Frame) : ¬Fresh Γ channelId (es ++ [.processFrame fr]) := by
  intro h
  obtain ⟨e, he, -⟩ := h es fr [] rfl
  exact List.not_mem_nil he

theorem fresh_snoc {es : List ChannelEvent} {e : ChannelEvent} (he : ∀ fr, e ≠ .processFrame fr) :
    Fresh Γ channelId (es ++ [e]) ↔ Fresh Γ channelId es ∨ e.Installs Γ channelId := by
  constructor
  · intro h
    by_cases hinst : e.Installs Γ channelId
    · exact Or.inr hinst
    · refine Or.inl fun pre fr mid hes => ?_
      obtain ⟨e', he', hinst'⟩ := h pre fr (mid ++ [e]) (by rw [hes]; simp)
      rcases List.mem_append.mp he' with he' | he'
      · exact ⟨e', he', hinst'⟩
      · rw [List.mem_singleton.mp he'] at hinst'
        exact absurd hinst' hinst
  · intro h pre fr mid hes
    rcases List.eq_nil_or_concat mid with rfl | ⟨mid, e', rfl⟩
    · obtain ⟨-, hlast⟩ := List.append_inj' hes rfl
      exact absurd (List.singleton_inj.mp hlast) (he fr)
    · rw [List.concat_eq_append, ← List.cons_append, ← List.append_assoc] at hes
      obtain ⟨hes, hlast⟩ := List.append_inj' hes rfl
      rw [List.concat_eq_append]
      rcases h with h | hinst
      · obtain ⟨e'', he'', hinst⟩ := h pre fr mid hes
        exact ⟨e'', List.mem_append_left _ he'', hinst⟩
      · exact ⟨e, List.mem_append_right _ (by rw [← hlast]; exact List.mem_singleton_self _), hinst⟩

/-- After any run, the handler's promise is still open exactly when the last frame has been followed by an installed
handler. -/
theorem armed_iff_fresh {es : List ChannelEvent} :
    ∀ {s : ChannelRun}, (channelMachine Γ channelId).run es = some s →
      Handles channelId s.channel ∧ (Armed s.channel ↔ Fresh Γ channelId es) := by
  induction es using List.reverseRecOn with
  | nil =>
    intro s h
    cases h
    refine ⟨handles_create channelId, ⟨fun _ pre fr mid h => ?_, fun _ => armed_create channelId⟩⟩
    cases pre <;> cases h
  | append_singleton es e ih =>
    intro s' h
    obtain ⟨s, hrun, hstep⟩ := Machine.run_snoc_eq_some _ |>.mp h
    obtain ⟨hs, hfresh⟩ := ih hrun
    rcases frame_or_other e with ⟨fr, rfl⟩ | he
    · obtain ⟨hs', harmed⟩ := step_processFrame hs hstep
      exact ⟨hs', iff_of_false harmed (not_fresh_processFrame es fr)⟩
    · obtain ⟨hs', -, harmed⟩ := step_other hs he hstep
      exact ⟨hs', by rw [harmed, hfresh, fresh_snoc he]⟩

/-- A frame comes when the handler's promise is not satisfied. -/
def FrameArmed (s : ChannelRun) (e : ChannelEvent) : Prop := (∃ fr, e = .processFrame fr) → Armed s.channel

theorem rpcBetweenFrames_iff {es : List ChannelEvent} {s : ChannelRun}
    (h : (channelMachine Γ channelId).run es = some s) :
    (channelMachine Γ channelId).Guarded FrameArmed es ↔ RpcBetweenFrames Γ channelId es := by
  constructor
  · intro hg pre fr mid fr' post hes
    have hpre : (pre ++ .processFrame fr :: mid) ++ [.processFrame fr'] <+: es := ⟨post, by rw [hes]; simp⟩
    obtain ⟨rest, hrest⟩ := (List.prefix_append _ _).trans hpre
    obtain ⟨t, ht⟩ := Machine.run_prefix _ (hrest ▸ h)
    exact (armed_iff_fresh ht).2.mp (hg _ _ t hpre ht ⟨fr', rfl⟩) pre fr mid rfl
  · rintro hb pre e t ⟨post, hes⟩ ht ⟨fr', rfl⟩
    refine (armed_iff_fresh ht).2.mpr fun pre' fr mid hpre => ?_
    exact hb pre' fr mid fr' post (by rw [← hes, hpre]; simp)

end ChannelPromisesAux

open ChannelPromisesAux

/-- In every run of a channel, with `begin_rpc` called at any time, no attempt to satisfy a promise twice escapes
`process_frame` exactly when between any two frames some `begin_rpc` installs its handler. -/
theorem promises_satisfied_once_iff (Γ : Env) (channelId : UInt16) {es : List ChannelEvent} {s : ChannelRun}
    (h : (channelMachine Γ channelId).run es = some s) :
    (channelMachine Γ channelId).Always (fun s => .promiseAlreadySatisfied ∉ s.escaped) es ↔
      RpcBetweenFrames Γ channelId es := by
  rw [← rpcBetweenFrames_iff h]
  refine Machine.always_iff_guarded (G := FrameArmed)
    (I := fun s => Handles channelId s.channel ∧ .promiseAlreadySatisfied ∉ s.escaped)
    ⟨handles_create channelId, List.not_mem_nil⟩ ?_ (fun _ hs => hs.2) ?_ h
  · rintro s e s' ⟨hs, hesc⟩ hg hstep
    rcases frame_or_other e with ⟨fr, rfl⟩ | he
    · obtain ⟨hs', -, hgood⟩ := step_of_armed hs (hg ⟨fr, rfl⟩) hstep
      exact ⟨hs', hgood hesc⟩
    · obtain ⟨hs', hesc', -⟩ := step_other hs he hstep
      exact ⟨hs', by rw [hesc']; exact hesc⟩
  · rintro s e s' ⟨hs, -⟩ hg hstep hesc
    obtain ⟨⟨fr, rfl⟩, hnot⟩ := Classical.not_imp.mp hg
    obtain ⟨-, -, hbad⟩ := step_of_fired hs hnot hstep
    exact hesc hbad

/-- A run with a request between the frame that opens the channel and the next: nothing is satisfied twice. -/
theorem promises_satisfied_once_request :
    (channelMachine .sample 1).Always (fun s => .promiseAlreadySatisfied ∉ s.escaped)
      [.processFrame EnvSample.openOkFrame, .beginRpc (.create EnvSample.exchange EnvSample.exchangeDeclare) 40 11,
        .processFrame (EnvSample.closeFrame 1)] := by
  obtain ⟨s, hs⟩ : ∃ s, (channelMachine .sample 1).run [.processFrame EnvSample.openOkFrame,
      .beginRpc (.create EnvSample.exchange EnvSample.exchangeDeclare) 40 11,
      .processFrame (EnvSample.closeFrame 1)] = some s := ⟨_, rfl⟩
  refine (promises_satisfied_once_iff .sample 1 hs).mpr fun pre fr mid fr' post h => ?_
  rcases pre with _ | ⟨_, _ | ⟨_, _ | ⟨_, pre⟩⟩⟩
  · rcases mid with _ | ⟨e, mid⟩
    · cases h
    · obtain rfl := (List.cons.inj (List.cons.inj h).2).1
      exact ⟨_, List.mem_cons_self, _, rfl⟩
  · cases h
  · rcases mid with _ | ⟨e, mid⟩ <;> cases h
  · simp at h

/-- A new channel that is opened by the broker, and closed by it: the frame that closes it makes `process_open` satisfy the
opened promise again, and that escapes. -/
theorem openOk_then_close_satisfies_twice :
    ((channelMachine .sample 1).run [.processFrame EnvSample.openOkFrame, .processFrame (EnvSample.closeFrame 1)]).map
      ChannelRun.escaped = some [.promiseAlreadySatisfied] := by
  decide

end Amqpp
