import Amqpp.Connection.Effects

/-!
# The table of handlers over a run

`Evolves s t` says what a run can do to `m_channels` between two of its states: entries are added at the end, an entry can
expire and does not come back, a handler keeps its number, and a new one has the number of its entry. The ids given to users
are those of the entries added.
-/

namespace Amqpp

/-- The channel id of a handler. Channel 0 has none. -/
def FrameHandler.number : FrameHandler → Option Nat
  | channel0 => none
  | channel c => some c.channelId.toNat

theorem FrameHandler.number_eq_some {h : FrameHandler} {n : Nat} : h.number = some n ↔ ∃ c, h = .channel c ∧ c.channelId.toNat = n := by
  cases h with
  | channel0 => simp [number]
  | channel c => simp [number]

namespace ConnectionManager

/-- The ids of the channels given to users so far, in order. -/
def openedIds (s : ConnectionManager) : List Nat := s.channelPromises.filterMap Promise.value?

/-- The ids of the entries from `a` up to `b`, if channels can be opened at all. -/
def newIds (Γ : Env) (a b : Nat) : List Nat := if Γ.canOpen then List.range' a (b - a) else []

theorem newIds_self (Γ : Env) (a : Nat) : newIds Γ a a = [] := by
  unfold newIds
  rw [Nat.sub_self]
  split <;> rfl

theorem newIds_append (Γ : Env) {a b c : Nat} (hab : a ≤ b) (hbc : b ≤ c) : newIds Γ a b ++ newIds Γ b c = newIds Γ a c := by
  unfold newIds
  split
  · obtain ⟨m, rfl⟩ := Nat.exists_eq_add_of_le hab
    obtain ⟨n, rfl⟩ := Nat.exists_eq_add_of_le hbc
    rw [Nat.add_sub_cancel_left, Nat.add_sub_cancel_left, List.range'_append_1, Nat.add_assoc, Nat.add_sub_cancel_left]
  · rfl

/-- What a run can do to the table of handlers and to the promises of new channels. -/
structure Evolves (Γ : Env) (s t : ConnectionManager) : Prop where
  length : s.channels.length ≤ t.channels.length
  bound : t.channels.length ≤ max s.channels.length 65536
  old : ∀ i h, i < s.channels.length → t.live i = some h → ∃ h', s.live i = some h' ∧ h.number = h'.number
  new : ∀ i h, s.channels.length ≤ i → t.live i = some h → h.number = some i
  promises : ∃ ps, t.channelPromises = s.channelPromises ++ ps ∧
    ps.filterMap Promise.value? = newIds Γ s.channels.length t.channels.length

namespace Evolves

variable {Γ : Env}

/-- The table keeps its length, and handlers their numbers. -/
theorem of_length_eq {s t : ConnectionManager} (hlength : t.channels.length = s.channels.length)
    (hlive : ∀ i h, t.live i = some h → ∃ h', s.live i = some h' ∧ h.number = h'.number)
    (hpromises : t.channelPromises = s.channelPromises) : Evolves Γ s t := by
  refine ⟨hlength.ge, ?_, fun i h _ => hlive i h, ?_, [], ?_, ?_⟩
  · rw [hlength]
    exact Nat.le_max_left _ _
  · intro i h hi hl
    have hlt := lt_of_live hl
    omega
  · rw [hpromises, List.append_nil]
  · rw [hlength, newIds_self]
    rfl

theorem of_channels_eq {s t : ConnectionManager} (hchannels : t.channels = s.channels)
    (hpromises : t.channelPromises = s.channelPromises) : Evolves Γ s t := by
  refine of_length_eq (congrArg List.length hchannels) (fun i h hl => ⟨h, ?_, rfl⟩) hpromises
  rwa [live, hchannels] at hl

instance : Std.Refl (Evolves Γ) := ⟨fun _ => of_channels_eq rfl rfl⟩

instance : IsTrans ConnectionManager (Evolves Γ) := by
  refine ⟨fun s t u h h' => ⟨Nat.le_trans h.length h'.length, ?_, ?_, ?_, ?_⟩⟩
  · have hst := h.bound
    have htu := h'.bound
    omega
  · intro i hd hi hu
    obtain ⟨hd', ht, hnumber⟩ := h'.old i hd (Nat.lt_of_lt_of_le hi h.length) hu
    obtain ⟨hd'', hs, hnumber'⟩ := h.old i hd' hi ht
    exact ⟨hd'', hs, hnumber.trans hnumber'⟩
  · intro i hd hi hu
    by_cases hit : i < t.channels.length
    · obtain ⟨hd', ht, hnumber⟩ := h'.old i hd hit hu
      exact hnumber.trans (h.new i hd' hi ht)
    · exact h'.new i hd (Nat.le_of_not_lt hit) hu
  · obtain ⟨ps, hps, hids⟩ := h.promises
    obtain ⟨ps', hps', hids'⟩ := h'.promises
    refine ⟨ps ++ ps', by rw [hps', hps, List.append_assoc], ?_⟩
    rw [List.filterMap_append, hids, hids', newIds_append Γ h.length h'.length]

/-- A handler replaced by one with its number, or gone. -/
theorem set {s t : ConnectionManager} {i : Nat} {h : FrameHandler} {k : Option FrameHandler} (hl : s.live i = some h)
    (hnumber : ∀ d, k = some d → d.number = h.number) (hchannels : t.channels = s.channels.set i k)
    (hpromises : t.channelPromises = s.channelPromises) : Evolves Γ s t := by
  refine of_length_eq (by rw [hchannels, List.length_set]) (fun j d hd => ?_) hpromises
  rw [live_set (lt_of_live hl) hchannels] at hd
  by_cases hj : j = i
  · rw [if_pos hj] at hd
    exact ⟨h, hj ▸ hl, hnumber d hd⟩
  · rw [if_neg hj] at hd
    exact ⟨d, hd, rfl⟩

/-- One more entry: expired, or a channel with the entry's number. -/
theorem push {s t : ConnectionManager} {h : Option FrameHandler} {p : Promise Exception Nat} (hlength : s.channels.length ≤ 65535)
    (hnumber : ∀ d, h = some d → d.number = some s.channels.length) (hchannels : t.channels = s.channels ++ [h])
    (hpromises : t.channelPromises = s.channelPromises ++ [p])
    (hp : p.value? = if Γ.canOpen then some s.channels.length else none) : Evolves Γ s t := by
  have hlen : t.channels.length = s.channels.length + 1 := by rw [hchannels, List.length_append, List.length_singleton]
  refine ⟨by omega, by omega, ?_, ?_, [p], hpromises, ?_⟩
  · intro i d hi hd
    rw [live_eq_some, hchannels, List.getElem?_append_left hi] at hd
    exact ⟨d, live_eq_some.mpr hd, rfl⟩
  · intro i d hi hd
    have hlt := lt_of_live hd
    obtain rfl : i = s.channels.length := by omega
    rw [live_eq_some, hchannels, List.getElem?_concat_length] at hd
    exact hnumber d (Option.some.inj hd)
  · unfold newIds
    rw [hlen, Nat.add_sub_cancel_left, List.filterMap_cons, hp]
    split
    · rename_i hnone
      split at hnone
      · cases hnone
      · rename_i hopen
        rw [if_neg hopen]
        rfl
    · rename_i n hsome
      split at hsome
      · rename_i hopen
        rw [if_pos hopen, ← Option.some.inj hsome]
        rfl
      · cases hsome

/-- A dispatched frame. -/
theorem of_dispatched {fr : Frame} {s t : ConnectionManager} (h : Dispatched Γ fr s t) : Evolves Γ s t := by
  cases h with
  | channel hc hd ht =>
    subst ht
    refine .set (channelAt_eq_some.mp hc) ?_ rfl rfl
    rintro _ ⟨⟩
    exact congrArg (some ·.toNat) (ChannelImpl.sameClosing_of_processFrame Γ hd).channelId
  | channel0 hl ht =>
    subst ht
    exact of_channels_eq rfl rfl
  | dead hl ht => exact of_channels_eq ht.channels ht.channelPromises

theorem of_buffered {s t : ConnectionManager} (h : s.Buffered t) : Evolves Γ s t := by
  obtain ⟨builder, reads, rfl⟩ := h
  exact of_channels_eq rfl rfl

/-- The end of `on_socket_close`. -/
theorem of_toldClosing {s t : ConnectionManager} (h : s.ToldClosing t) : Evolves Γ s t := by
  refine of_length_eq h.length (fun i hd hl => ?_) h.channelPromises
  rcases h.live i with heq | ⟨c, p, hs, ht⟩
  · exact ⟨hd, heq ▸ hl, rfl⟩
  · rw [ht] at hl
    cases hl
    exact ⟨_, hs, rfl⟩

theorem of_opening {s : ConnectionManager} {r : ConnectionRun} (h : Opening Γ s r) : Evolves Γ s r.manager := by
  have hnumber : s.channels.length ≤ 65535 → ∀ d, some (FrameHandler.channel (.create (UInt16.ofNat s.channels.length))) = some d →
      d.number = some s.channels.length := by
    rintro hle _ ⟨⟩
    exact congrArg some (UInt16.toNat_ofNat_of_lt' (show s.channels.length < 65536 by omega))
  cases h with
  | outOfChannels h hr =>
    subst hr
    exact ⟨Nat.le_refl _, Nat.le_max_left _ _, fun i hd _ hl => ⟨hd, hl, rfl⟩, fun i hd hi hl => absurd (lt_of_live hl) (Nat.not_lt.mpr hi),
      _, rfl, (newIds_self Γ _).symm⟩
  | opened h hopen ht hr =>
    subst hr
    exact .push h (hnumber h) ht.channels ht.channelPromises (by rw [if_pos hopen]; rfl)
  | lost h hopen e hr => exact .push (h := none) h (fun d hd => by cases hd) (by rw [hr]) (by rw [hr]) (by rw [hopen]; rfl)
  | thrown h hopen he hr => exact .push h (hnumber h) (by rw [hr]; rfl) (by rw [hr]) (by rw [hopen]; rfl)

/-- What a step does to the table. -/
theorem of_effect {m : ConnectionManager} {e : ConnectionEvent} {r : ConnectionRun} (h : Effect Γ m e r) : Evolves Γ m r.manager := by
  cases h with
  | wrote _ h => exact of_channels_eq h.channels h.channelPromises
  | opening h => exact of_opening h
  | received h =>
    cases h with
    | buffered h => exact of_buffered h
    | dispatched hs h ht =>
      exact trans_of (Evolves Γ) (of_buffered hs) (trans_of (Evolves Γ) (of_dispatched h) (of_buffered ht))
  | writeFailed h =>
    refine trans_of (Evolves Γ) ?_ (of_toldClosing h)
    exact of_channels_eq rfl rfl
  | readFailed h =>
    refine trans_of (Evolves Γ) ?_ (of_toldClosing h)
    exact of_channels_eq rfl rfl
  | expired hc hr => exact .set (k := none) (channelAt_eq_some.mp hc) (fun d hd => by cases hd) (by rw [hr]) (by rw [hr])
  | requested hc hd hr =>
    refine .set (channelAt_eq_some.mp hc) ?_ (by rw [hr]; rfl) (by rw [hr]; rfl)
    rintro _ ⟨⟩
    exact congrArg (some ·.toNat) hd.channelId

end Evolves

end ConnectionManager

/-- What a run does to the table, from any state it goes through to its end. -/
theorem connectionMachine_evolves {Γ : Env} {pre es : List ConnectionEvent} {s t : ConnectionRun}
    (hs : (connectionMachine Γ).run pre = some s) (ht : (connectionMachine Γ).run (pre ++ es) = some t) :
    ConnectionManager.Evolves Γ s.manager t.manager :=
  Machine.rel_of_run (connectionMachine Γ) ConnectionRun.manager
    (fun _ _ _ h => ConnectionManager.Evolves.of_effect (ConnectionRun.effect_of_next (ConnectionRun.next_of_step h).2)) hs ht

end Amqpp
