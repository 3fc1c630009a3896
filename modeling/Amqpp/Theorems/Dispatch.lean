import Amqpp.Connection.Dispatch

/-!
# Dispatching a frame

For a channel that the manager knows, `dispatch_frame` does one of its two actions. For a channel number past the end of
`m_channels` it goes on after the first action and reads the vector out of bounds.
-/

namespace Amqpp

namespace ConnectionManager

/-- Dispatching the frame reads `m_channels` within its bounds and does one action once: `process_frame` on the live handler
of the channel, or, when there is none, `handle_dead_channel_frame`, which submits one `channel.close_ok` for a
`channel.close`. -/
def DispatchedOnce (Γ : Env) (fr : Frame) (s : ConnectionManager) : Prop :=
  (dispatchFrame Γ fr s).Ends fun t =>
    ((s.live fr.channel.toNat).isSome → t.dispatches = s.dispatches ++ [.processFrame fr.channel.toNat fr]) ∧
    (s.live fr.channel.toNat = none → t.dispatches = s.dispatches ++ [.handleDeadChannelFrame fr] ∧
      ∀ m, fr.type = .method → Γ.spec.readFrame fr = .ok m → m.classId = Γ.channel.index →
        m.desc.index = Γ.channelClose.index → t.submitted = s.submitted ++ [Γ.closeOkFrame fr.channel])

end ConnectionManager

open DispatchAux ConnectionManager

/-- Whatever `m_channels` holds, `dispatch_frame` stays in bounds and does one of its two actions once exactly when the
channel number is in range, or the frame is a method frame that cannot be read, for which the first action throws before the
read out of bounds. -/
theorem dispatchedOnce_iff (Γ : Env) (fr : Frame) (s : ConnectionManager) :
    s.DispatchedOnce Γ fr ↔
      fr.channel.toNat < s.channels.length ∨ (fr.type = .method ∧ ∃ e, Γ.spec.readFrame fr = .error e) := by
  unfold DispatchedOnce
  by_cases hin : fr.channel.toNat < s.channels.length
  · refine iff_of_true ?_ (Or.inl hin)
    rw [dispatchFrame_of_lt Γ hin]
    rcases hl : s.live fr.channel.toNat with _ | fh
    · rw [dispatchToHandler_expired Γ hin hl]
      refine (handleDeadChannelFrame_ends Γ fr s).imp fun t ht => ⟨fun hsome => ?_, fun _ => ht⟩
      cases hsome
    · refine (dispatchToHandler_live Γ hl).imp fun t ht => ⟨fun _ => ?_, fun hnone => ?_⟩
      · unfold dispatches
        rw [ht, List.filter_append]
        rfl
      · cases hnone
  · have hle := Nat.le_of_not_lt hin
    by_cases hthrows : fr.type = .method ∧ ∃ e, Γ.spec.readFrame fr = .error e
    · refine iff_of_true ?_ (Or.inr hthrows)
      obtain ⟨htype, e, hread⟩ := hthrows
      rw [dispatchFrame_throws Γ hle htype hread]
      refine (handleDeadChannelFrame_ends Γ fr s).imp fun t ht => ⟨fun hsome => ?_, fun _ => ht⟩
      obtain ⟨fh, hl⟩ := Option.isSome_iff_exists.mp hsome
      exact absurd (lt_of_live hl) hin
    · refine iff_of_false ?_ (fun h => h.elim hin hthrows)
      rw [dispatchFrame_undefined Γ hle (exists_read hthrows)]
      exact id

/-- A `channel.close` for channel 5, when there is only channel 0: the frame is answered, and then the vector is read past
its end. -/
theorem unknown_channel_reads_past_end :
    ConnectionManager.dispatchFrame .sample (EnvSample.closeFrame 5) .started = .undefined ∧
      ¬ConnectionManager.started.DispatchedOnce .sample (EnvSample.closeFrame 5) :=
  ⟨rfl, id⟩

end Amqpp
