import Amqpp.Connection.Dispatch

/-!
# Frames for dead channels

`handle_dead_channel_frame` drops what is not a `channel.close`, but it calls `method::read` on every method frame first,
and nothing catches what that throws.
-/

namespace Amqpp

/-- The frame is a method frame whose payload opens with the ids of `channel.close`, and decodes. -/
def Env.IsChannelClose (Γ : Env) (fr : Frame) : Prop :=
  fr.type = .method ∧ writeUint16 Γ.channel.index ++ writeUint16 Γ.channelClose.index <+: fr.payload ∧
    ∃ m, Γ.spec.readFrame fr = .ok m

/-- `dispatch_frame` returns. For a `channel.close` one frame is passed to `begin_write_frame`, a `channel.close_ok` on the
same channel; for any other frame, that the frame was handled is noted, and nothing else changes. -/
def ConnectionManager.DroppedQuietly (Γ : Env) (fr : Frame) (s : ConnectionManager) : Prop :=
  (Γ.IsChannelClose fr → ∃ t, dispatchFrame Γ fr s = .ok () t ∧ t.submitted = s.submitted ++ [Γ.closeOkFrame fr.channel] ∧
    beginWriteFrame Γ ⟨s.allocated, Γ.closeOkFrame fr.channel⟩ { s.noteDead fr with allocated := s.allocated + 1 } = .ok () t) ∧
  (¬Γ.IsChannelClose fr → dispatchFrame Γ fr s = .ok () (s.noteDead fr))

namespace DeadChannelAux

open DispatchAux ConnectionManager

variable (Γ : Env)

/-- Among the frames that are read, those that open with the two ids have them. -/
theorem ids_prefix_iff {fr : Frame} {m : Method} (h : Γ.spec.readFrame fr = .ok m) (classId methodId : UInt16) :
    writeUint16 classId ++ writeUint16 methodId <+: fr.payload ↔ m.classId = classId ∧ m.desc.index = methodId := by
  obtain ⟨rest, hrest⟩ := Spec.payload_of_readFrame h
  rw [hrest]
  constructor
  · rintro ⟨rest', heq⟩
    rw [List.append_assoc] at heq
    obtain ⟨hclass, heq⟩ := List.append_inj heq (by rw [length_writeUint16, length_writeUint16])
    obtain ⟨hmethod, -⟩ := List.append_inj heq (by rw [length_writeUint16, length_writeUint16])
    exact ⟨(writeUint16_injective hclass).symm, (writeUint16_injective hmethod).symm⟩
  · rintro ⟨rfl, rfl⟩
    exact ⟨rest, List.append_assoc _ _ _⟩

/-- `handle_dead_channel_frame` looks at the ids of the method it read. -/
theorem readsClose_iff (fr : Frame) : Γ.ReadsClose fr ↔ Γ.IsChannelClose fr := by
  constructor
  · rintro ⟨htype, m, hread, hids⟩
    exact ⟨htype, (ids_prefix_iff Γ hread _ _).mpr hids, m, hread⟩
  · rintro ⟨htype, hids, m, hread⟩
    exact ⟨htype, m, hread, (ids_prefix_iff Γ hread _ _).mp hids⟩

/-- The answer to a `channel.close`. -/
theorem submitted_of_close {fr : Frame} {s : ConnectionManager} (h : Γ.ReadsClose fr) :
    ∃ t, handleDeadChannelFrame Γ fr s = .ok () t ∧ t.submitted = s.submitted ++ [Γ.closeOkFrame fr.channel] := by
  obtain ⟨t, ht, -, hcalls⟩ := handleDeadChannelFrame_ok Γ (fun _ => h.2.imp fun _ hm => hm.1) s
  refine ⟨t, ht, ?_⟩
  unfold submitted
  rw [hcalls, answers_of_readsClose Γ h, List.filterMap_append]
  rfl

end DeadChannelAux

open DispatchAux DeadChannelAux ConnectionManager

/-- A frame for a channel whose handler has expired is dropped as it should exactly when it is not a method frame, or a
method frame that `method::read` accepts. -/
theorem droppedQuietly_iff (Γ : Env) (fr : Frame) (s : ConnectionManager) (hin : fr.channel.toNat < s.channels.length)
    (hdead : s.live fr.channel.toNat = none) :
    s.DroppedQuietly Γ fr ↔ (fr.type = .method → ∃ m, Γ.spec.readFrame fr = .ok m) := by
  have hdispatch : dispatchFrame Γ fr s = handleDeadChannelFrame Γ fr s :=
    (dispatchFrame_of_lt Γ hin).trans (dispatchToHandler_expired Γ hin hdead)
  unfold DroppedQuietly
  rw [hdispatch]
  constructor
  · rintro ⟨-, hdrop⟩ htype
    rcases hread : Γ.spec.readFrame fr with e | m
    · have hnot : ¬Γ.IsChannelClose fr := by
        rintro ⟨-, -, m, hm⟩
        rw [hread] at hm
        cases hm
      have hthrows := hdrop hnot
      rw [handleDeadChannelFrame_throws Γ htype hread] at hthrows
      cases hthrows
    · exact ⟨m, rfl⟩
  · intro hread
    constructor
    · intro hclose
      obtain ⟨t, ht, hsubmitted⟩ := submitted_of_close Γ ((readsClose_iff Γ fr).mpr hclose) (s := s)
      exact ⟨t, ht, hsubmitted, (handleDeadChannelFrame_close Γ ((readsClose_iff Γ fr).mpr hclose) s).symm.trans ht⟩
    · exact fun hnot => handleDeadChannelFrame_drop Γ (fun h => hnot ((readsClose_iff Γ fr).mp h)) hread s

/-- A manager that has made one channel, of which nobody holds a pointer any more. -/
def ConnectionManager.withDeadChannel : ConnectionManager := { ConnectionManager.started with channels := [some .channel0, none] }

/-- A `channel.close` for a dead channel. -/
theorem dead_channel_close_dropped :
    ConnectionManager.withDeadChannel.DroppedQuietly .sample (EnvSample.closeFrame 1) :=
  (droppedQuietly_iff .sample (EnvSample.closeFrame 1) .withDeadChannel (by decide) rfl).mpr fun _ => ⟨_, rfl⟩

/-- A method frame without a payload, for a dead channel. -/
theorem dead_channel_empty_method_throws :
    (ConnectionManager.dispatchFrame .sample ⟨.method, 1, []⟩ .withDeadChannel =
      .throws (.runtimeError "Unable to read uint16") (ConnectionManager.withDeadChannel.noteDead ⟨.method, 1, []⟩)) ∧
      ¬ConnectionManager.withDeadChannel.DroppedQuietly .sample ⟨.method, 1, []⟩ := by
  refine ⟨rfl, fun h => ?_⟩
  have hnot : ¬Env.sample.IsChannelClose ⟨.method, 1, []⟩ := fun hclose => by
    obtain ⟨rest, hrest⟩ := hclose.2.1
    cases hrest
  cases h.2 hnot

end Amqpp
