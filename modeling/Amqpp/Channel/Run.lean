import Amqpp.Channel.Steps
import Amqpp.Lib.Machine

/-!
# Runs of a channel

Frames from the io_service thread, requests of user threads and `close_async`, in any order. What leaves `process_frame` as
an exception is kept in `escaped`; what leaves `begin_rpc` goes to the user.
-/

namespace Amqpp

/-- A call of a channel. -/
inductive ChannelEvent where
  | processFrame (fr : Frame)
  | beginRpc (method : Method) (classId methodId : UInt16)
  | closeAsync

/-- A channel in a run, and the exceptions that left `process_frame` so far. -/
structure ChannelRun where
  channel : ChannelImpl
  escaped : List Exception

/-- What a call leaves. None of the calls of a channel is undefined. -/
def ChannelRun.after {α : Type} (s : ChannelRun) (escapes : Bool) : Outcome Exception ChannelImpl α → Option ChannelRun
  | .ok _ c => some { s with channel := c }
  | .throws e c => some { channel := c, escaped := if escapes then s.escaped ++ [e] else s.escaped }
  | .undefined => none

/-- One call. A frame is for this channel, as `process_frame` asserts. -/
def ChannelRun.step (Γ : Env) (s : ChannelRun) : ChannelEvent → Option ChannelRun
  | .processFrame fr =>
    if fr.channel = s.channel.channelId then s.after true (ChannelImpl.processFrame Γ fr s.channel) else none
  | .beginRpc method classId methodId => s.after false (ChannelImpl.beginRpc Γ method classId methodId s.channel)
  | .closeAsync => s.after false (ChannelImpl.closeAsync s.channel)

/-- A channel from its constructor on. -/
def channelMachine (Γ : Env) (channelId : UInt16) : Machine ChannelRun ChannelEvent where
  init := ⟨.create channelId, []⟩
  step := ChannelRun.step Γ

namespace ChannelRun

/-- What holds of a call's end holds of the run after it. -/
theorem after_leaves {α : Type} {s s' : ChannelRun} {escapes : Bool} {o : Outcome Exception ChannelImpl α}
    {P : ChannelImpl → Prop} (h : s.after escapes o = some s') (ho : o.Leaves P) : P s'.channel := by
  cases o with
  | ok a c =>
    cases h
    exact ho
  | throws e c =>
    cases h
    exact ho
  | undefined => cases h

variable (Γ : Env)

/-- A step other than `close_async` leaves the closing alone. -/
theorem sameClosing_of_step {s s' : ChannelRun} {e : ChannelEvent} (he : e ≠ .closeAsync) (h : s.step Γ e = some s') :
    s.channel.SameClosing s'.channel := by
  cases e with
  | processFrame fr =>
    simp only [step] at h
    split at h
    · exact after_leaves h (ChannelImpl.within_processFrame Γ fr s.channel)
    · cases h
  | beginRpc method classId methodId =>
    exact after_leaves h (ChannelImpl.within_beginRpc Γ method classId methodId s.channel)
  | closeAsync => exact absurd rfl he

/-- The step of a frame is a step on a frame of the channel. -/
theorem step_processFrame {s s' : ChannelRun} {fr : Frame} (h : s.step Γ (.processFrame fr) = some s') :
    fr.channel = s.channel.channelId ∧ s.after true (ChannelImpl.processFrame Γ fr s.channel) = some s' := by
  simp only [step] at h
  split at h
  · rename_i hch
    exact ⟨hch, h⟩
  · cases h

end ChannelRun

end Amqpp
