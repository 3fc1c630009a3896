import Amqpp.Connection.Run

/-!
# What the handlers leave alone

`Calm s t` says that from `s` to `t` the manager was not closed: its state and the promise of its closing are the same, no
handler was told to close, old channels are as closed as they were or gone, and new ones are open and numbered by their
index. That is so of every handler but `on_socket_close`.
-/

namespace Amqpp

/-- The same handler after some calls, none of which closed it. -/
inductive FrameHandler.SameClosing : FrameHandler → FrameHandler → Prop where
  | channel0 : SameClosing .channel0 .channel0
  | channel {c d : ChannelImpl} (h : c.SameClosing d) : SameClosing (.channel c) (.channel d)

namespace FrameHandler.SameClosing

theorem refl (h : FrameHandler) : h.SameClosing h := by
  cases h with
  | channel0 => exact .channel0
  | channel c => exact .channel (refl_of ChannelImpl.SameClosing c)

theorem trans {a b c : FrameHandler} (h : a.SameClosing b) (h' : b.SameClosing c) : a.SameClosing c := by
  cases h with
  | channel0 => exact h'
  | channel h =>
    cases h' with
    | channel h' => exact .channel (trans_of ChannelImpl.SameClosing h h')

end FrameHandler.SameClosing

namespace ConnectionManager

/-- The handler at an index, while it is alive. -/
def live (s : ConnectionManager) (i : Nat) : Option FrameHandler := s.channels[i]?.join

theorem live_eq_some {s : ConnectionManager} {i : Nat} {h : FrameHandler} :
    s.live i = some h ↔ s.channels[i]? = some (some h) := Option.join_eq_some_iff

theorem lt_of_live {s : ConnectionManager} {i : Nat} {h : FrameHandler} (hl : s.live i = some h) : i < s.channels.length :=
  (List.getElem?_eq_some_iff.mp (live_eq_some.mp hl)).1

theorem channelAt_eq_some {s : ConnectionManager} {i : Nat} {c : ChannelImpl} :
    s.channelAt i = some c ↔ s.live i = some (.channel c) := by
  rw [live_eq_some]
  unfold channelAt
  split
  · rename_i d hd
    rw [hd]
    simp only [Option.some.injEq, FrameHandler.channel.injEq]
  · rename_i hne
    simp only [reduceCtorEq, false_iff]
    exact hne c

/-- The handlers after one entry was replaced. -/
theorem live_set {s t : ConnectionManager} {i : Nat} {h : Option FrameHandler} (hi : i < s.channels.length)
    (ht : t.channels = s.channels.set i h) (j : Nat) : t.live j = if j = i then h else s.live j := by
  unfold live
  rw [ht, List.getElem?_set]
  by_cases hj : i = j
  · rw [if_pos hj, if_pos hj.symm, if_pos hi]
    rfl
  · rw [if_neg hj, if_neg (Ne.symm hj)]

/-- The manager was not closed in between. -/
structure Calm (s t : ConnectionManager) : Prop where
  state : t.state = s.state
  promise : t.connectionClosedPromise = s.connectionClosedPromise
  calls : ∀ i, t.calls.count (.closeAsync i) = s.calls.count (.closeAsync i)
  length : s.channels.length ≤ t.channels.length
  old : ∀ i h, i < s.channels.length → t.live i = some h → ∃ h', s.live i = some h' ∧ h'.SameClosing h
  new : ∀ i h, s.channels.length ≤ i → t.live i = some h →
    ∃ c, h = .channel c ∧ c.channelId.toNat = i ∧ c.channelClosedPromise = .unset

namespace Calm

/-- Nothing happens to the handlers. -/
theorem of_channels_eq {s t : ConnectionManager} (hstate : t.state = s.state)
    (hpromise : t.connectionClosedPromise = s.connectionClosedPromise) (hchannels : t.channels = s.channels)
    (hcalls : ∀ i, t.calls.count (.closeAsync i) = s.calls.count (.closeAsync i)) : Calm s t := by
  have hlive : ∀ i, t.live i = s.live i := fun i => by rw [live, live, hchannels]
  refine ⟨hstate, hpromise, hcalls, (congrArg List.length hchannels).ge, ?_, ?_⟩
  · intro i h _ hl
    exact ⟨h, (hlive i).symm.trans hl, .refl h⟩
  · intro i h hi hl
    have hlt := lt_of_live ((hlive i).symm.trans hl)
    omega

instance : Std.Refl Calm := ⟨fun _ => of_channels_eq rfl rfl rfl fun _ => rfl⟩

instance : IsTrans ConnectionManager Calm := by
  refine ⟨fun s t u h h' => ⟨h'.state.trans h.state, h'.promise.trans h.promise, fun i => (h'.calls i).trans (h.calls i),
    Nat.le_trans h.length h'.length, ?_, ?_⟩⟩
  · intro i hd hi hu
    obtain ⟨hd', ht, hsame⟩ := h'.old i hd (Nat.lt_of_lt_of_le hi h.length) hu
    obtain ⟨hd'', hs, hsame'⟩ := h.old i hd' hi ht
    exact ⟨hd'', hs, hsame'.trans hsame⟩
  · intro i hd hi hu
    by_cases hit : i < t.channels.length
    · obtain ⟨hd', ht, hsame⟩ := h'.old i hd hit hu
      obtain ⟨c, rfl, hid, hunset⟩ := h.new i hd' hi ht
      cases hsame with
      | channel hsame =>
        exact ⟨_, rfl, hsame.channelId ▸ hid, hsame.channelClosedPromise.trans hunset⟩
    · exact h'.new i hd (Nat.le_of_not_lt hit) hu

/-- A channel after a call that did not close it. -/
theorem setChannel {s : ConnectionManager} {i : Nat} {c d : ChannelImpl} (hc : s.channelAt i = some c)
    (h : c.SameClosing d) : Calm s (s.setChannel i d) := by
  have hlive := channelAt_eq_some.mp hc
  have hset := live_set (t := s.setChannel i d) (lt_of_live hlive) rfl
  refine ⟨rfl, rfl, fun _ => rfl, (List.length_set).ge, ?_, ?_⟩
  · intro j hd _ hj
    rw [hset] at hj
    split at hj
    · rename_i hji
      cases hj
      exact ⟨.channel c, hji ▸ hlive, .channel h⟩
    · exact ⟨hd, hj, .refl hd⟩
  · intro j hd hj hl
    have hlt := lt_of_live hl
    rw [show (s.setChannel i d).channels.length = s.channels.length from List.length_set] at hlt
    omega

/-- A channel that is gone. -/
theorem expire {s : ConnectionManager} {i : Nat} {c : ChannelImpl} (hc : s.channelAt i = some c) :
    Calm s { s with channels := s.channels.set i none } := by
  have hset := live_set (t := { s with channels := s.channels.set i none }) (lt_of_live (channelAt_eq_some.mp hc)) rfl
  refine ⟨rfl, rfl, fun _ => rfl, (List.length_set).ge, ?_, ?_⟩
  · intro j hd _ hj
    rw [hset] at hj
    split at hj
    · cases hj
    · exact ⟨hd, hj, .refl hd⟩
  · intro j hd hj hl
    have hlt : j < (s.channels.set i none).length := lt_of_live hl
    rw [List.length_set] at hlt
    omega

/-- A new channel. -/
theorem push {s : ConnectionManager} (h : ¬s.channels.length > 65535) :
    Calm s { s with channels := s.channels ++ [some (.channel (.create (UInt16.ofNat s.channels.length)))] } := by
  refine ⟨rfl, rfl, fun _ => rfl, by simp, ?_, ?_⟩
  · intro i hd hi hl
    rw [live_eq_some, List.getElem?_append_left hi] at hl
    exact ⟨hd, live_eq_some.mpr hl, .refl hd⟩
  · intro i hd hi hl
    have hlt := lt_of_live hl
    rw [List.length_append, List.length_singleton] at hlt
    obtain rfl : i = s.channels.length := by omega
    rw [live_eq_some, List.getElem?_concat_length] at hl
    cases hl
    exact ⟨_, rfl, UInt16.toNat_ofNat_of_lt' (show s.channels.length < 65536 by omega), rfl⟩

end Calm

end ConnectionManager

end Amqpp
