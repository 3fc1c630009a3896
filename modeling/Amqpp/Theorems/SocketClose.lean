import Amqpp.Connection.Closing

/-!
# When the socket fails

Every completion that fails closes the connection and its channels, also when another one did so before: a channel that
lives through two of them has its promise satisfied twice. Nothing ever satisfies the promise of the connection itself.
-/

namespace Amqpp

/-- The socket's failure was handled once: `close_async` was called on each channel at most once, and no exception left the
handler of a failing completion, which runs `on_socket_close`. -/
structure ConnectionRun.ClosedOnce (r : ConnectionRun) : Prop where
  once : ∀ i, r.manager.calls.count (.closeAsync i) ≤ 1
  quiet : ∀ e ex, r.escaped = some (e, ex) → e.isError = false

/-- When a completion fails, no live channel was closed before. -/
def NoneClosedYet (r : ConnectionRun) (e : ConnectionEvent) : Prop :=
  e.isError = true → ∀ i h, 1 ≤ i → r.manager.live i = some h → ¬h.IsClosed

/-- No channel lives when a completion fails and still does when a later one fails. -/
def NoneAliveTwice (Γ : Env) (es : List ConnectionEvent) : Prop :=
  ∀ pre e mid f s t, pre ++ e :: mid ++ [f] <+: es → e.isError = true → f.isError = true →
    (connectionMachine Γ).run pre = some s → (connectionMachine Γ).run (pre ++ e :: mid) = some t →
      ∀ i, 1 ≤ i → s.manager.live i = none ∨ t.manager.live i = none

/-- A closed connection has told everyone: its own promise is satisfied, and so is that of every live channel. -/
structure ConnectionManager.ToldEveryone (s : ConnectionManager) : Prop where
  connection : s.state = .closedState → s.connectionClosedPromise.isSatisfied = true
  channels : s.state = .closedState → ∀ i c, 1 ≤ i → s.live i = some (.channel c) → c.channelClosedPromise.isSatisfied = true

namespace SocketCloseAux

variable {Γ : Env}

/-- What a run keeps as long as no closed channel is closed again: the handlers from index 1 on are channels, a channel that
was told to close was told once, and is closed as long as it lives. -/
structure Sound (r : ConnectionRun) : Prop where
  channels : r.manager.channels ≠ []
  isChannel : ∀ i h, 1 ≤ i → r.manager.live i = some h → ∃ c, h = .channel c
  index : ∀ i, 0 < r.manager.calls.count (.closeAsync i) → 1 ≤ i ∧ i < r.manager.channels.length
  isClosed : ∀ i h, 0 < r.manager.calls.count (.closeAsync i) → r.manager.live i = some h → h.IsClosed
  closedOnce : r.ClosedOnce

theorem sound_init (Γ : Env) : Sound (connectionMachine Γ).init := by
  refine ⟨List.cons_ne_nil _ _, fun i h hi hl => ?_, fun i hi => ?_, fun i h hi => ?_, fun i => Nat.zero_le 1, fun e ex h => ?_⟩
  · have hlt : i < 1 := ConnectionManager.lt_of_live hl
    omega
  · exact absurd hi (Nat.lt_irrefl 0)
  · exact absurd hi (Nat.lt_irrefl 0)
  · cases h

/-- A calm step keeps it. -/
theorem sound_of_calm {r r' : ConnectionRun} (hr : Sound r) (h : r.manager.Calm r'.manager)
    (hquiet : ∀ e ex, r'.escaped = some (e, ex) → e.isError = false) : Sound r' := by
  refine ⟨?_, ?_, ?_, ?_, fun i => (h.calls i).trans_le (hr.closedOnce.once i), hquiet⟩
  · have hpos := List.length_pos_iff.mpr hr.channels
    exact List.length_pos_iff.mp (Nat.lt_of_lt_of_le hpos h.length)
  · intro i hd hi hl
    by_cases hlt : i < r.manager.channels.length
    · obtain ⟨hd', hl', hsame⟩ := h.old i hd hlt hl
      obtain ⟨c, rfl⟩ := hr.isChannel i hd' hi hl'
      cases hsame with
      | channel _ => exact ⟨_, rfl⟩
    · obtain ⟨c, hc, -, -⟩ := h.new i hd (Nat.le_of_not_lt hlt) hl
      exact ⟨c, hc⟩
  · intro i hi
    rw [h.calls i] at hi
    exact ⟨(hr.index i hi).1, Nat.lt_of_lt_of_le (hr.index i hi).2 h.length⟩
  · intro i hd hi hl
    rw [h.calls i] at hi
    obtain ⟨hd', hl', hsame⟩ := h.old i hd (hr.index i hi).2 hl
    exact hsame.isClosed_iff.mp (hr.isClosed i hd' hi hl')

/-- Closing handlers that were not closed before keeps it. -/
theorem sound_of_closed {r : ConnectionRun} {s t : ConnectionManager} (hr : Sound r) (hchannels : s.channels = r.manager.channels)
    (hcalls : s.calls = r.manager.calls) (hopen : ∀ i, 1 ≤ i → ∀ h, r.manager.live i = some h → h.IsOpen)
    (h : ConnectionManager.Closed (List.range' 1 (s.channels.length - 1)) s t) : Sound ⟨t, none⟩ := by
  rw [hchannels] at h
  have hlive : ∀ i, s.live i = r.manager.live i := fun i => by rw [ConnectionManager.live, hchannels, ConnectionManager.live]
  have hlength : t.channels.length = r.manager.channels.length := h.length.trans (congrArg List.length hchannels)
  have hmem : ∀ {i hd}, 1 ≤ i → t.live i = some hd → i ∈ List.range' 1 (r.manager.channels.length - 1) := by
    intro i hd hi hl
    have hlt := ConnectionManager.lt_of_live hl
    exact List.mem_range'_1.mpr ⟨hi, by omega⟩
  have hindex : ∀ i, 0 < t.calls.count (.closeAsync i) → 1 ≤ i ∧ i < r.manager.channels.length := by
    intro i hi
    rw [h.calls i, hcalls] at hi
    by_cases hcount : 0 < r.manager.calls.count (.closeAsync i)
    · exact hr.index i hcount
    · split at hi
      · rename_i hin
        obtain ⟨hle, hlt⟩ := List.mem_range'_1.mp hin.1
        exact ⟨hle, by omega⟩
      · exact absurd hi hcount
  refine ⟨?_, ?_, fun i hi => hlength.symm ▸ hindex i hi, ?_, ?_, fun e ex h => ?_⟩
  · exact List.length_pos_iff.mp (hlength.symm ▸ List.length_pos_iff.mpr hr.channels)
  · intro i hd hi hl
    obtain ⟨c, hc, -⟩ := h.closed i hd (hmem hi hl) hl
    exact ⟨c, hc⟩
  · intro i hd hi hl
    exact h.closed i hd (hmem (hindex i hi).1 hl) hl
  · intro i
    change t.calls.count (.closeAsync i) ≤ 1
    rw [h.calls i, hcalls, hlive i]
    have honce := hr.closedOnce.once i
    split
    · rename_i hin
      obtain ⟨hd, hl⟩ := Option.isSome_iff_exists.mp hin.2
      -- The handler is open, so it was not told before.
      have hzero : ¬0 < r.manager.calls.count (.closeAsync i) := fun hpos =>
        (hopen i (List.mem_range'_1.mp hin.1).1 hd hl).not_isClosed (hr.isClosed i hd hpos hl)
      omega
    · exact honce
  · cases h

/-- A failing completion that finds no channel closed closes them all. -/
theorem closed_of_error {r r' : ConnectionRun} {e : ConnectionEvent} (hr : Sound r) (he : e.isError = true)
    (hg : NoneClosedYet r e) (h : ConnectionRun.next Γ r.manager e = some r') :
    ∃ s t, s.channels = r.manager.channels ∧ s.calls = r.manager.calls ∧ r' = ⟨t, none⟩ ∧
      (∀ i, 1 ≤ i → ∀ h, r.manager.live i = some h → h.IsOpen) ∧
      ConnectionManager.Closed (List.range' 1 (s.channels.length - 1)) s t := by
  have hopen : ∀ i, 1 ≤ i → ∀ h, r.manager.live i = some h → h.IsOpen := by
    intro i hi h hl
    obtain ⟨c, rfl⟩ := hr.isChannel i h hi hl
    exact ⟨c, rfl, Bool.eq_false_iff.mpr fun hsat => hg he i _ hi hl ⟨c, rfl, hsat⟩⟩
  rcases ConnectionRun.kind_of_next h with ⟨_, _, hf, -, -, -⟩ | ⟨hf, -, -⟩ | ⟨m', -, hend, hchannels, hcalls, -⟩
  · rw [he] at hf
    cases hf
  · rw [he] at hf
    cases hf
  · have hlive : ∀ i, m'.live i = r.manager.live i := fun i => by
      rw [ConnectionManager.live, hchannels, ConnectionManager.live]
    obtain ⟨t, ht, hclosed⟩ := ConnectionManager.onSocketClose_ok (s := m') (hchannels ▸ hr.channels)
      fun i hi h hl => hopen i hi h (hlive i ▸ hl)
    rw [ht] at hend
    cases hend
    exact ⟨{ m' with state := .closedState }, t, hchannels, hcalls, rfl, hopen, hclosed⟩

/-- A failing completion that finds no channel closed keeps it. -/
theorem sound_of_error {r r' : ConnectionRun} {e : ConnectionEvent} (hr : Sound r) (he : e.isError = true)
    (hg : NoneClosedYet r e) (h : ConnectionRun.next Γ r.manager e = some r') : Sound r' := by
  obtain ⟨s, t, hchannels, hcalls, rfl, hopen, hclosed⟩ := closed_of_error hr he hg h
  exact sound_of_closed hr hchannels hcalls hopen hclosed

/-- A failing completion that finds a channel closed throws. -/
theorem not_closedOnce {r r' : ConnectionRun} {e : ConnectionEvent} {i : Nat} {fh : FrameHandler} (he : e.isError = true)
    (hi : 1 ≤ i) (hl : r.manager.live i = some fh) (hclosed : fh.IsClosed)
    (h : ConnectionRun.next Γ r.manager e = some r') : ¬r'.ClosedOnce := by
  intro hgood
  rcases ConnectionRun.kind_of_next h with ⟨_, _, hf, -, -, -⟩ | ⟨hf, -, -⟩ | ⟨m', -, hend, hchannels, -, -⟩
  · rw [he] at hf
    cases hf
  · rw [he] at hf
    cases hf
  · have hlive : m'.live i = some fh := by
      rw [ConnectionManager.live, hchannels]
      exact hl
    obtain ⟨ex, t, -, ht⟩ := ConnectionManager.onSocketClose_throws hi hlive hclosed
    rw [ht] at hend
    cases hend
    have hquiet := hgood.quiet e ex rfl
    rw [he] at hquiet
    cases hquiet

/-- A guarded step keeps it. -/
theorem sound_of_step {r r' : ConnectionRun} {e : ConnectionEvent} (hr : Sound r) (hg : NoneClosedYet r e)
    (hstep : (connectionMachine Γ).step r e = some r') : Sound r' := by
  obtain ⟨-, hnext⟩ := ConnectionRun.next_of_step hstep
  by_cases he : e.isError = true
  · exact sound_of_error hr he hg hnext
  · rw [Bool.not_eq_true] at he
    refine sound_of_calm hr (ConnectionRun.calm_of_next he hnext) fun e' ex hesc => ?_
    rw [ConnectionRun.escaped_of_next hnext hesc, he]

/-- A guarded run keeps it. -/
theorem sound_of_guarded {es : List ConnectionEvent} {r : ConnectionRun} (hg : (connectionMachine Γ).Guarded NoneClosedYet es)
    (h : (connectionMachine Γ).run es = some r) : Sound r :=
  Machine.Guarded.invariant (sound_init Γ) (fun _ _ _ => sound_of_step) hg h

/-- A completion of the run failed while the channel was alive. -/
def FailedOn (Γ : Env) (i : Nat) (es : List ConnectionEvent) : Prop :=
  ∃ pre e mid s h, es = pre ++ e :: mid ∧ e.isError = true ∧ (connectionMachine Γ).run pre = some s ∧ s.manager.live i = some h

theorem failedOn_snoc {i : Nat} {es : List ConnectionEvent} {e : ConnectionEvent} {r : ConnectionRun}
    (hr : (connectionMachine Γ).run es = some r) :
    FailedOn Γ i (es ++ [e]) ↔ FailedOn Γ i es ∨ e.isError = true ∧ ∃ h, r.manager.live i = some h := by
  constructor
  · rintro ⟨pre, f, mid, s, h, heq, hf, hs, hl⟩
    rcases List.eq_nil_or_concat mid with rfl | ⟨mid, g, rfl⟩
    · obtain ⟨rfl, hlast⟩ := List.append_inj' heq rfl
      obtain rfl := List.singleton_inj.mp hlast
      obtain rfl := Option.some.inj (hr.symm.trans hs)
      exact Or.inr ⟨hf, h, hl⟩
    · rw [List.concat_eq_append, ← List.cons_append, ← List.append_assoc] at heq
      exact Or.inl ⟨pre, f, mid, s, h, (List.append_inj' heq rfl).1, hf, hs, hl⟩
  · rintro (⟨pre, f, mid, s, h, rfl, hf, hs, hl⟩ | ⟨he, h, hl⟩)
    · exact ⟨pre, f, mid ++ [e], s, h, by rw [List.append_assoc, List.cons_append], hf, hs, hl⟩
    · exact ⟨es, e, [], r, h, rfl, he, hr, hl⟩

/-- A channel on which a completion failed is in the table. -/
theorem lt_of_failedOn {i : Nat} {es : List ConnectionEvent} {r : ConnectionRun}
    (hg : (connectionMachine Γ).Guarded NoneClosedYet es) (hr : (connectionMachine Γ).run es = some r) (h : FailedOn Γ i es) :
    i < r.manager.channels.length := by
  induction es using List.reverseRecOn generalizing r with
  | nil =>
    obtain ⟨pre, e, mid, -, -, heq, -⟩ := h
    simp at heq
  | append_singleton es e ih =>
    obtain ⟨t, ht, hstep⟩ := Machine.run_snoc_eq_some _ |>.mp hr
    obtain ⟨hges, hge⟩ := Machine.guarded_snoc.mp hg
    obtain ⟨-, hnext⟩ := ConnectionRun.next_of_step hstep
    have hlt : i < t.manager.channels.length := by
      rcases (failedOn_snoc ht).mp h with hbefore | ⟨-, h, hl⟩
      · exact ih hges ht hbefore
      · exact ConnectionManager.lt_of_live hl
    by_cases he : e.isError = true
    · obtain ⟨s, u, hchannels, -, rfl, -, hclosed⟩ := closed_of_error (sound_of_guarded hges ht) he (hge t ht) hnext
      exact hlt.trans_eq ((congrArg List.length hchannels).symm.trans hclosed.length.symm)
    · rw [Bool.not_eq_true] at he
      exact hlt.trans_le (ConnectionRun.calm_of_next he hnext).length

/-- In a guarded run the channels that are closed are those on which a completion failed. -/
theorem isClosed_iff_failedOn {es : List ConnectionEvent} {r : ConnectionRun}
    (hg : (connectionMachine Γ).Guarded NoneClosedYet es) (hr : (connectionMachine Γ).run es = some r) {i : Nat} (hi : 1 ≤ i)
    {h : FrameHandler} (hl : r.manager.live i = some h) : h.IsClosed ↔ FailedOn Γ i es := by
  induction es using List.reverseRecOn generalizing r h with
  | nil =>
    cases hr
    have hlt : i < 1 := ConnectionManager.lt_of_live hl
    omega
  | append_singleton es e ih =>
    obtain ⟨t, ht, hstep⟩ := Machine.run_snoc_eq_some _ |>.mp hr
    obtain ⟨hges, hge⟩ := Machine.guarded_snoc.mp hg
    obtain ⟨-, hnext⟩ := ConnectionRun.next_of_step hstep
    rw [failedOn_snoc ht]
    by_cases he : e.isError = true
    · obtain ⟨s, u, hchannels, -, rfl, -, hclosed⟩ := closed_of_error (sound_of_guarded hges ht) he (hge t ht) hnext
      obtain ⟨h', hl'⟩ := hclosed.lived i h hl
      have hlt := ConnectionManager.lt_of_live hl'
      have hlive : t.manager.live i = some h' := by
        rw [ConnectionManager.live, ← hchannels]
        exact hl'
      exact iff_of_true (hclosed.closed i h (List.mem_range'_1.mpr ⟨hi, by omega⟩) hl) (Or.inr ⟨he, h', hlive⟩)
    · rw [or_iff_left fun hright => he hright.1]
      rw [Bool.not_eq_true] at he
      have hcalm := ConnectionRun.calm_of_next he hnext
      by_cases hlt : i < t.manager.channels.length
      · obtain ⟨h', hl', hsame⟩ := hcalm.old i h hlt hl
        exact hsame.isClosed_iff.symm.trans (ih hges ht hl')
      · -- A new channel is open, and nothing has failed on it.
        obtain ⟨c, rfl, -, hunset⟩ := hcalm.new i h (Nat.le_of_not_lt hlt) hl
        refine iff_of_false ?_ fun hbefore => hlt (lt_of_failedOn hges ht hbefore)
        rintro ⟨d, hd, hsat⟩
        cases hd
        rw [hunset] at hsat
        cases hsat

/-- What the guard says of the states, said of the events. -/
theorem guarded_iff_noneAliveTwice {es : List ConnectionEvent} {r : ConnectionRun} (h : (connectionMachine Γ).run es = some r) :
    (connectionMachine Γ).Guarded NoneClosedYet es ↔ NoneAliveTwice Γ es := by
  constructor
  · intro hg pre e mid f s t hpre he hf hs ht i hi
    obtain ⟨hbefore, hat⟩ := Machine.guarded_snoc.mp (hg.of_prefix hpre)
    rcases hl : s.manager.live i with _ | h
    · exact Or.inl rfl
    · rcases hl' : t.manager.live i with _ | h'
      · exact Or.inr rfl
      · have hclosed := (isClosed_iff_failedOn hbefore ht hi hl').mpr ⟨pre, e, mid, s, h, rfl, he, hs, hl⟩
        exact absurd hclosed (hat t ht hf i h' hi hl')
  · intro hnone
    induction es using List.reverseRecOn generalizing r with
    | nil => exact Machine.guarded_nil _
    | append_singleton es f ih =>
      obtain ⟨t, ht, -⟩ := Machine.run_snoc_eq_some _ |>.mp h
      have hg := ih ht fun pre e mid f s t hpre => hnone pre e mid f s t (hpre.trans (List.prefix_append _ _))
      refine Machine.guarded_snoc.mpr ⟨hg, fun t' ht' hf i h' hi hl' hclosed => ?_⟩
      obtain rfl : t = t' := Option.some.inj (ht.symm.trans ht')
      obtain ⟨pre, e, mid, s, h, rfl, he, hs, hl⟩ := (isClosed_iff_failedOn hg ht hi hl').mp hclosed
      rcases hnone pre e mid f s t (List.prefix_refl _) he hf hs ht i hi with hgone | hgone
      · cases hgone.symm.trans hl
      · cases hgone.symm.trans hl'

/-- The guard, as a check of the entries behind the first in the state a run leaves. -/
theorem noneClosedYet_of_drop {pre : List ConnectionEvent} {e : ConnectionEvent}
    (h : ∃ r, (connectionMachine Γ).run pre = some r ∧ ∀ fh ∈ r.manager.channels.drop 1, ∀ x ∈ fh, ¬x.IsClosed) :
    ∀ r, (connectionMachine Γ).run pre = some r → NoneClosedYet r e := by
  intro r hr _ i x hi hl
  obtain ⟨r', hr', h⟩ := h
  obtain rfl : r' = r := Option.some.inj (hr'.symm.trans hr)
  refine h (some x) (List.mem_iff_getElem?.mpr ⟨i - 1, ?_⟩) x rfl
  rw [List.getElem?_drop, Nat.add_sub_cancel' hi]
  exact ConnectionManager.live_eq_some.mp hl

end SocketCloseAux

open SocketCloseAux

/-- In every run of the connection manager, the failure of the socket is handled once exactly when, whenever a completion
fails, no live channel was closed before; that is, when no channel lives through two completions that fail. -/
theorem socketClose_once_iff (Γ : Env) {es : List ConnectionEvent} {r : ConnectionRun}
    (h : (connectionMachine Γ).run es = some r) :
    ((connectionMachine Γ).Always ConnectionRun.ClosedOnce es ↔ (connectionMachine Γ).Guarded NoneClosedYet es) ∧
      ((connectionMachine Γ).Guarded NoneClosedYet es ↔ NoneAliveTwice Γ es) := by
  refine ⟨Machine.always_iff_guarded (sound_init Γ) (fun r e r' => sound_of_step) (fun _ hr => hr.closedOnce) ?_ h,
    guarded_iff_noneAliveTwice h⟩
  · intro r e r' _ hg hstep
    unfold NoneClosedYet at hg
    simp only [Classical.not_imp, not_forall, not_not] at hg
    obtain ⟨he, i, fh, hi, hl, hclosed⟩ := hg
    exact not_closedOnce he hi hl hclosed (ConnectionRun.next_of_step hstep).2

/-- Two completions fail, and the user drops the channel in between: it is closed once. -/
theorem socketClose_once_destroyed :
    (connectionMachine .sample).Always ConnectionRun.ClosedOnce
      [.startOpenChannel, .readDone 0 none, .destroyChannel 1, .writeDone 0 false] := by
  obtain ⟨r, hr⟩ : ∃ r, (connectionMachine .sample).run
      [.startOpenChannel, .readDone 0 none, .destroyChannel 1, .writeDone 0 false] = some r :=
    Option.isSome_iff_exists.mp (by decide +kernel)
  refine (socketClose_once_iff .sample hr).1.mpr ?_
  -- The guard says something about the two completions: before each of them the live channels are open.
  refine (@Machine.guarded_snoc _ _ _ _ [_, _, _] _).mpr ⟨?_, noneClosedYet_of_drop ⟨_, rfl, by decide⟩⟩
  refine (@Machine.guarded_snoc _ _ _ _ [_, _] _).mpr ⟨?_, fun _ _ he => by cases he⟩
  refine (@Machine.guarded_snoc _ _ _ _ [_] _).mpr ⟨?_, noneClosedYet_of_drop ⟨_, rfl, by decide⟩⟩
  exact (@Machine.guarded_snoc _ _ _ _ [] _).mpr ⟨Machine.guarded_nil _, fun _ _ he => by cases he⟩

/-- A channel is open when the peer resets the connection: the read fails and closes it, then its write fails and closes it
again, and the second attempt to satisfy its promise leaves the handler. -/
theorem socketClose_twice :
    ((connectionMachine .sample).run [.startOpenChannel, .readDone 0 none, .writeDone 0 false]).map
      (fun r => (r.manager.calls.count (.closeAsync 1), r.escaped.map Prod.snd)) =
        some (2, some .promiseAlreadySatisfied) := by
  decide +kernel

/-- In every run of the connection manager, a closed connection has told everyone exactly when no completion fails: the
promise of the connection is never satisfied. -/
theorem toldEveryone_iff (Γ : Env) {es : List ConnectionEvent} {r : ConnectionRun}
    (h : (connectionMachine Γ).run es = some r) :
    (connectionMachine Γ).Always (fun r => r.manager.ToldEveryone) es ↔
      ∀ e ∈ es, e.isError = false := by
  rw [← Machine.guarded_events_iff h]
  refine Machine.always_iff_guarded
    (I := fun r => r.manager.state = .openState ∧ r.manager.connectionClosedPromise = .unset) ⟨rfl, rfl⟩ ?_ ?_ ?_ h
  · rintro r e r' ⟨hstate, hpromise⟩ he hstep
    have hcalm := ConnectionRun.calm_of_next he (ConnectionRun.next_of_step hstep).2
    exact ⟨hcalm.state.trans hstate, hcalm.promise.trans hpromise⟩
  · rintro r ⟨hstate, -⟩
    have hopen : r.manager.state ≠ .closedState := by
      rw [hstate]
      exact ConnectionState.noConfusion
    exact ⟨fun hc => absurd hc hopen, fun hc => absurd hc hopen⟩
  · rintro r e r' ⟨-, hpromise⟩ he hstep htold
    cases ConnectionRun.kind_of_next (ConnectionRun.next_of_step hstep).2 with
    | closing m' _ hend _ _ hpromise' =>
      obtain ⟨hstate, hsame⟩ := ConnectionRun.afterHandler_leaves hend (ConnectionManager.onSocketClose_leaves m')
      have hsat := htold.connection hstate
      rw [hsame, hpromise', hpromise] at hsat
      cases hsat
    | handler _ _ hf => exact he hf
    | outside hf => exact he hf

/-- A channel is opened and its frame written, and no completion fails. -/
theorem toldEveryone_open :
    (connectionMachine .sample).Always (fun r => r.manager.ToldEveryone) [.startOpenChannel, .transmit 0] := by
  obtain ⟨r, hr⟩ : ∃ r, (connectionMachine .sample).run [.startOpenChannel, .transmit 0] = some r := ⟨_, rfl⟩
  exact (toldEveryone_iff .sample hr).mpr (by simp [ConnectionEvent.isError])

/-- The read fails, then an open request that was posted before runs: the promise of the connection is not satisfied, and
neither is that of the new channel. -/
theorem socketClose_tells_nobody :
    ((connectionMachine .sample).run [.readDone 0 none, .startOpenChannel]).map
      (fun r => (r.manager.state, r.manager.connectionClosedPromise.isSatisfied,
        (r.manager.channelAt 1).map fun c => c.channelClosedPromise.isSatisfied)) =
      some (.closedState, false, some false) := by
  decide +kernel

end Amqpp
