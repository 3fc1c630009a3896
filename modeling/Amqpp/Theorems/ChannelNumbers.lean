import Amqpp.Connection.Numbering

/-!
# Channel numbers

The index of a handler in `m_channels` is its channel number, over whole runs, up to the last of the 16-bit numbers.
-/

namespace Amqpp

/-- The handlers from index 1 on are channels with the index as their id, so the assertion of `process_frame` holds for
every frame that is dispatched to one. The ids given to users are 1, 2, 3 and so on, each within the table, and the table
has at most 65536 entries. -/
structure ConnectionManager.Numbered (s : ConnectionManager) : Prop where
  channelId : ∀ i h, 1 ≤ i → s.live i = some h → ∃ c, h = .channel c ∧ c.channelId.toNat = i
  asserted : ∀ (fr : Frame) c, 1 ≤ fr.channel.toNat → s.live fr.channel.toNat = some (.channel c) → fr.channel = c.channelId
  ids : s.openedIds = List.range' 1 s.openedIds.length
  within : ∀ i ∈ s.openedIds, i < s.channels.length
  size : s.channels.length ≤ 65536

namespace ChannelNumbersAux

open ConnectionManager

/-- The ids given to users since the read loop started are those of all entries but the first, or there are none. -/
theorem openedIds_of_evolves {Γ : Env} {t : ConnectionManager} (h : Evolves Γ .started t) :
    t.openedIds = if Γ.canOpen then List.range' 1 (t.channels.length - 1) else [] := by
  obtain ⟨ps, hps, hids⟩ := h.promises
  unfold openedIds
  rw [hps]
  exact hids

theorem numbered_of_evolves {Γ : Env} {t : ConnectionManager} (h : Evolves Γ .started t) : t.Numbered := by
  have hnumber : ∀ i hd, 1 ≤ i → t.live i = some hd → ∃ c, hd = .channel c ∧ c.channelId.toNat = i := fun i hd hi hl =>
    FrameHandler.number_eq_some.mp (h.new i hd hi hl)
  have hids := openedIds_of_evolves h
  refine ⟨hnumber, ?_, ?_, ?_, h.bound⟩
  · intro fr c hi hl
    obtain ⟨d, hd, hid⟩ := hnumber _ _ hi hl
    cases hd
    exact (UInt16.toNat_inj.mp hid).symm
  · rw [hids]
    split
    · rw [List.length_range']
    · rfl
  · intro i hi
    rw [hids] at hi
    split at hi
    · have hmem := List.mem_range'_1.mp hi
      omega
    · exact absurd hi List.not_mem_nil

end ChannelNumbersAux

open ChannelNumbersAux ConnectionManager

/-- In every run of the connection manager the handlers are numbered by their index. Numbers are not used again: an entry
that expired stays expired, and the ids given out later are past the entries there were. Once all 16-bit numbers are used,
opening a channel gives its promise an exception and does nothing else. -/
theorem channels_numbered (Γ : Env) {es : List ConnectionEvent} {r : ConnectionRun} (h : (connectionMachine Γ).run es = some r) :
    r.manager.Numbered ∧
    (∀ pre t, pre <+: es → (connectionMachine Γ).run pre = some t →
      (∀ i, i < t.manager.channels.length → t.manager.live i = none → r.manager.live i = none) ∧
      ∃ ids, r.manager.openedIds = t.manager.openedIds ++ ids ∧ ∀ i ∈ ids, t.manager.channels.length ≤ i) ∧
    (65535 < r.manager.channels.length → r.escaped = none →
      r.step Γ .startOpenChannel = some
        ⟨{ r.manager with
          channelPromises := r.manager.channelPromises ++ [.exception (.runtimeError "Out of channels!")] }, none⟩) := by
  have hinit : (connectionMachine Γ).run [] = some ⟨.started, none⟩ := rfl
  refine ⟨numbered_of_evolves (connectionMachine_evolves hinit h), ?_, ?_⟩
  · rintro pre t ⟨post, rfl⟩ ht
    have hevolves := connectionMachine_evolves ht h
    constructor
    · intro i hi hnone
      rcases hl : r.manager.live i with _ | hd
      · rfl
      · obtain ⟨hd', hl', -⟩ := hevolves.old i hd hi hl
        rw [hnone] at hl'
        cases hl'
    · obtain ⟨ps, hps, hids⟩ := hevolves.promises
      refine ⟨ps.filterMap Promise.value?, ?_, fun i hi => ?_⟩
      · unfold openedIds
        rw [hps, List.filterMap_append]
      · rw [hids] at hi
        unfold newIds at hi
        split at hi
        · exact (List.mem_range'_1.mp hi).1
        · exact absurd hi List.not_mem_nil
  · intro hfull hnone
    unfold ConnectionRun.step
    rw [hnone]
    change ConnectionRun.afterHandler .startOpenChannel (runStartOpenChannel Γ r.manager) = _
    rw [runStartOpenChannel_full Γ hfull]
    rfl

/-- A channel is opened, dropped, and another opened: it has the next number. -/
theorem channels_numbered_two :
    ∃ r, (connectionMachine .sample).run [.startOpenChannel, .destroyChannel 1, .startOpenChannel] = some r ∧
      r.manager.Numbered ∧ r.manager.openedIds = [1, 2] ∧ r.manager.live 1 = none := by
  obtain ⟨r, hr⟩ : ∃ r, (connectionMachine .sample).run [.startOpenChannel, .destroyChannel 1, .startOpenChannel] = some r := ⟨_, rfl⟩
  have hstate : ((connectionMachine .sample).run [.startOpenChannel, .destroyChannel 1, .startOpenChannel]).map
      (fun r => (r.manager.openedIds, (r.manager.live 1).isNone)) = some ([1, 2], true) := by decide
  rw [hr, Option.map_some, Option.some.injEq, Prod.mk.injEq] at hstate
  exact ⟨r, hr, (channels_numbered .sample hr).1, hstate.1, Option.isNone_iff_eq_none.mp hstate.2⟩

end Amqpp
