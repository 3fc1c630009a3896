import Amqpp.Channel.Run

/-!
# What a closed channel tells its users

`close_async` satisfies the promise of the closing, but the future that `begin_rpc` tests and `declare_exchange` waits on
was default constructed and belongs to no promise, so neither of them ever learns of it.
-/

namespace Amqpp

/-- What the users of a channel see of its closing, when `closed` says whether `close_async` has run: the future tells them,
`begin_rpc` throws and leaves the channel as it is, and a `declare_exchange` without a reply stops waiting and fails. -/
structure ChannelImpl.TellsClosed (Γ : Env) (closed : Prop) (s : ChannelImpl) : Prop where
  ready_iff : s.channelClosedFuture.isReady s.satisfied = true ↔ closed
  beginRpc_throws : closed → ∀ method classId methodId, ∃ e t, ChannelImpl.beginRpc Γ method classId methodId s = .throws e t ∧
    t.posted = s.posted ∧ t.continuation = s.continuation
  declareExchange_fails : closed → ∀ i, s.satisfied (.rpc i) = false → ∃ e, s.declareExchangeWait i = some (.error e)

/-- A future that is ready would do: `begin_rpc` and `declare_exchange` test it as they should. What is missing is its
promise. -/
theorem ChannelImpl.tellsClosed_of_ready (Γ : Env) {s : ChannelImpl} (h : s.channelClosedFuture.isReady s.satisfied = true) :
    s.TellsClosed Γ True := by
  refine ⟨iff_of_true h trivial, fun _ method classId methodId => ?_, fun _ i hi => ?_⟩
  · exact ⟨_, s, ChannelImpl.beginRpc_of_ready Γ h method classId methodId, rfl, rfl⟩
  · refine ⟨.runtimeError "Channel is closed", ?_⟩
    -- The future of the request is not ready, so the wait ends with the second of the two.
    have hrpc : Future.isReady s.satisfied ⟨some (.rpc i)⟩ = false := hi
    have hwait : Future.waitForAny s.satisfied [⟨some (.rpc i)⟩, s.channelClosedFuture] = some 1 := by
      simp [Future.waitForAny, List.findIdx?_cons, hrpc, h]
    unfold ChannelImpl.declareExchangeWait
    rw [hwait]
    rfl

/-- All along the run, the users see of the closing what they should. -/
def AlwaysTellsClosed (Γ : Env) (channelId : UInt16) (es : List ChannelEvent) : Prop :=
  ∀ pre t, pre <+: es → (channelMachine Γ channelId).run pre = some t → t.channel.TellsClosed Γ (.closeAsync ∈ pre)

namespace ChannelCloseAux

/-- The future read for the closing stays the one the constructor left. -/
theorem inductive_future (Γ : Env) (channelId : UInt16) :
    (channelMachine Γ channelId).Inductive (fun s => s.channel.channelClosedFuture = ⟨none⟩) := by
  refine ⟨rfl, fun s e s' hs h => ?_⟩
  by_cases he : e = .closeAsync
  · subst he
    refine ChannelRun.after_leaves (P := fun c => c.channelClosedFuture = ⟨none⟩) h ?_
    cases hsat : s.channel.channelClosedPromise.isSatisfied with
    | true =>
      rw [ChannelImpl.closeAsync_of_satisfied hsat]
      exact hs
    | false =>
      rw [ChannelImpl.closeAsync_of_unset (Promise.eq_unset hsat)]
      exact hs
  · exact (s.sameClosing_of_step Γ he h).channelClosedFuture.trans hs

end ChannelCloseAux

open ChannelCloseAux

/-- In every run of a channel, its users see its closing as they should exactly when `close_async` never runs. -/
theorem tellsClosed_iff (Γ : Env) (channelId : UInt16) {es : List ChannelEvent} {s : ChannelRun}
    (h : (channelMachine Γ channelId).run es = some s) : AlwaysTellsClosed Γ channelId es ↔ .closeAsync ∉ es := by
  constructor
  · intro htells hmem
    have hready := (htells es s (List.prefix_refl _) h).ready_iff.mpr hmem
    rw [Machine.invariant_of_run _ (inductive_future Γ channelId) h] at hready
    cases hready
  · intro hnot pre t hpre ht
    have hopen : .closeAsync ∉ pre := fun hmem => hnot (hpre.subset hmem)
    have hfuture := Machine.invariant_of_run _ (inductive_future Γ channelId) ht
    refine ⟨?_, fun hmem => absurd hmem hopen, fun hmem => absurd hmem hopen⟩
    rw [hfuture]
    exact iff_of_false Bool.false_ne_true hopen

/-- A channel that is opened and sends a request, and is not closed. -/
theorem tellsClosed_request :
    AlwaysTellsClosed .sample 1 [.processFrame EnvSample.openOkFrame,
      .beginRpc (.create EnvSample.exchange EnvSample.exchangeDeclare) 40 11] := by
  obtain ⟨s, hs⟩ : ∃ s, (channelMachine .sample 1).run [.processFrame EnvSample.openOkFrame,
      .beginRpc (.create EnvSample.exchange EnvSample.exchangeDeclare) 40 11] = some s := ⟨_, rfl⟩
  exact (tellsClosed_iff .sample 1 hs).mpr (by simp)

/-- A channel that waits for the reply to its request when `close_async` runs: the future is not ready, the waiting
`declare_exchange` waits on, and the next one posts its frame. -/
theorem closeAsync_tells_nobody :
    ∃ s, (channelMachine .sample 1).run [.processFrame EnvSample.openOkFrame,
        .beginRpc (.create EnvSample.exchange EnvSample.exchangeDeclare) 40 11, .closeAsync] = some s ∧
      s.channel.channelClosedFuture.isReady s.channel.satisfied = false ∧ s.channel.declareExchangeWait 0 = none ∧
      ∃ future t, ChannelImpl.declareExchange .sample s.channel = .ok future t ∧
        t.posted.length = s.channel.posted.length + 1 :=
  ⟨_, rfl, rfl, rfl, _, _, rfl, rfl⟩

end Amqpp
