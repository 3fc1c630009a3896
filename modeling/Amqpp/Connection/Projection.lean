import Amqpp.Channel.Run
import Amqpp.Connection.OpenChannel

/-!
# One channel of a connection

What a step of the connection does to the channel at one index is a run of that channel on its own: the calls that the
manager makes on it, in their order, and nothing else. `Follows` says so of two states of the manager, and every handler
keeps it.
-/

namespace Amqpp

/-- The call as an event of the channel at an index. -/
def Call.channelEvent (i : Nat) : Call → Option ChannelEvent
  | processFrame j fr => if j = i then some (.processFrame fr) else none
  | closeAsync j => if j = i then some .closeAsync else none
  | _ => none

/-- The request of a user as an event of the channel at an index. -/
def ConnectionEvent.request (i : Nat) : ConnectionEvent → Option ChannelEvent
  | beginRpc j method classId methodId => if j = i then some (.beginRpc method classId methodId) else none
  | _ => none

/-- The event is a request of a user. -/
def ChannelEvent.isRequest : ChannelEvent → Bool
  | beginRpc .. => true
  | _ => false

/-- A channel on its own gets to a state by a list of events. When it is calm, nothing but connection exceptions has left
`process_frame`. -/
def ChannelImpl.ReachedBy (Γ : Env) (i : Nat) (calm : Prop) (ces : List ChannelEvent) (c : ChannelImpl) : Prop :=
  ∃ escaped, (channelMachine Γ (UInt16.ofNat i)).run ces = some ⟨c, escaped⟩ ∧ (calm → ∀ e ∈ escaped, e = .connectionException)

namespace ChannelImpl.ReachedBy

variable {Γ : Env} {i : Nat} {calm calm' : Prop} {ces : List ChannelEvent} {c d : ChannelImpl}

theorem mono (h : ReachedBy Γ i calm ces c) (hcalm : calm' → calm) : ReachedBy Γ i calm' ces c := by
  obtain ⟨escaped, hrun, hescaped⟩ := h
  exact ⟨escaped, hrun, fun h => hescaped (hcalm h)⟩

/-- A channel keeps its number. -/
theorem channelId (h : ReachedBy Γ i calm ces c) : c.channelId = UInt16.ofNat i := by
  obtain ⟨escaped, hrun, -⟩ := h
  refine Machine.invariant_of_run (channelMachine Γ (UInt16.ofNat i)) (I := fun s => s.channel.channelId = UInt16.ofNat i) ⟨rfl, ?_⟩ hrun
  intro s e s' hs h
  cases e with
  | closeAsync =>
    obtain ⟨p, hp⟩ := ChannelRun.after_leaves h (ConnectionManager.closeAsync_leaves s.channel)
    rw [hp]
    exact hs
  | processFrame fr => exact (ChannelRun.sameClosing_of_step Γ (e := .processFrame fr) nofun h).channelId.trans hs
  | beginRpc method classId methodId =>
    exact (ChannelRun.sameClosing_of_step Γ (e := .beginRpc method classId methodId) nofun h).channelId.trans hs

theorem nil : ReachedBy Γ i calm [] (.create (UInt16.ofNat i)) := ⟨[], rfl, fun _ _ he => absurd he List.not_mem_nil⟩

/-- One event more. -/
theorem snoc {e : ChannelEvent} (escapes : List Exception) (h : ReachedBy Γ i calm ces c)
    (hstep : ∀ escaped, ChannelRun.step Γ ⟨c, escaped⟩ e = some ⟨d, escaped ++ escapes⟩)
    (hescapes : calm → ∀ ex ∈ escapes, ex = .connectionException) : ReachedBy Γ i calm (ces ++ [e]) d := by
  obtain ⟨escaped, hrun, hescaped⟩ := h
  refine ⟨escaped ++ escapes, (Machine.run_snoc_eq_some _).mpr ⟨_, hrun, hstep escaped⟩, fun hcalm => ?_⟩
  exact List.forall_mem_append.mpr ⟨hescaped hcalm, hescapes hcalm⟩

/-- A frame that `process_frame` returns from. -/
theorem frame_ok {fr : Frame} (h : ReachedBy Γ i calm ces c) (hch : fr.channel.toNat = i)
    (hp : processFrame Γ fr c = .ok () d) : ReachedBy Γ i calm (ces ++ [.processFrame fr]) d := by
  have hid : fr.channel = c.channelId := by
    rw [h.channelId, ← hch, UInt16.ofNat_toNat]
  refine h.snoc [] (fun escaped => ?_) fun _ _ hex => absurd hex List.not_mem_nil
  simp [ChannelRun.step, ChannelRun.after, hid, hp]

/-- A frame that `process_frame` throws on. -/
theorem frame_throws {fr : Frame} {ex : Exception} (h : ReachedBy Γ i calm ces c) (hch : fr.channel.toNat = i)
    (hp : processFrame Γ fr c = .throws ex d) (hex : calm → ex = .connectionException) :
    ReachedBy Γ i calm (ces ++ [.processFrame fr]) d := by
  have hid : fr.channel = c.channelId := by
    rw [h.channelId, ← hch, UInt16.ofNat_toNat]
  refine h.snoc [ex] (fun escaped => ?_) fun hcalm => List.forall_mem_singleton.mpr (hex hcalm)
  simp [ChannelRun.step, ChannelRun.after, hid, hp]

/-- A call of `close_async`, however it ends. -/
theorem close (h : ReachedBy Γ i calm ces c) (hd : (closeAsync c).Ends (· = d)) : ReachedBy Γ i calm (ces ++ [.closeAsync]) d := by
  refine h.snoc [] (fun escaped => ?_) fun _ _ hex => absurd hex List.not_mem_nil
  cases hc : closeAsync c with
  | undefined =>
    rw [hc] at hd
    exact hd.elim
  | _ =>
    rw [hc] at hd
    cases hd
    simp [ChannelRun.step, ChannelRun.after, hc]

/-- A request, however it ends. -/
theorem rpc {method : Method} {classId methodId : UInt16} (h : ReachedBy Γ i calm ces c)
    (hd : (beginRpc Γ method classId methodId c).Ends (· = d)) : ReachedBy Γ i calm (ces ++ [.beginRpc method classId methodId]) d := by
  refine h.snoc [] (fun escaped => ?_) fun _ _ hex => absurd hex List.not_mem_nil
  cases hc : beginRpc Γ method classId methodId c with
  | undefined =>
    rw [hc] at hd
    exact hd.elim
  | _ =>
    rw [hc] at hd
    cases hd
    simp [ChannelRun.step, ChannelRun.after, hc]

end ChannelImpl.ReachedBy

namespace ConnectionManager

open ChannelImpl (ReachedBy)
open Prog (Within)

/-- The calls on the channel at an index so far, as its events. -/
def channelEvents (i : Nat) (s : ConnectionManager) : List ChannelEvent := s.calls.filterMap (Call.channelEvent i)

/-- From `s` to `t` nothing happened to the channel at an index but the calls made on it. -/
structure Follows (Γ : Env) (i : Nat) (calm : Prop) (s t : ConnectionManager) : Prop where
  dead : s.live i = none → t.live i = none ∧ t.channelEvents i = s.channelEvents i
  channel : ∃ ces, t.channelEvents i = s.channelEvents i ++ ces ∧ ∀ d, t.channelAt i = some d →
    ∃ c, s.channelAt i = some c ∧ ∀ pre, ReachedBy Γ i True pre c → ReachedBy Γ i calm (pre ++ ces) d

namespace Follows

variable {Γ : Env} {i : Nat} {calm : Prop} {s t u : ConnectionManager}

/-- The handler and the calls on it are the same. -/
theorem of_live_eq (hl : t.live i = s.live i) (hcalls : t.channelEvents i = s.channelEvents i) : Follows Γ i calm s t := by
  refine ⟨fun h => ⟨hl.trans h, hcalls⟩, [], by rw [hcalls, List.append_nil], fun d hd => ?_⟩
  refine ⟨d, channelAt_eq_some.mpr (hl.symm.trans (channelAt_eq_some.mp hd)), fun pre hpre => ?_⟩
  rw [List.append_nil]
  exact hpre.mono fun _ => trivial

theorem of_eq (hchannels : t.channels = s.channels) (hcalls : t.calls = s.calls) : Follows Γ i calm s t :=
  of_live_eq (by rw [live, hchannels, live]) (by rw [channelEvents, hcalls, channelEvents])

/-- One call on a live handler. -/
theorem of_call {e : ChannelEvent} (hlive : s.live i ≠ none) (hcalls : t.channelEvents i = s.channelEvents i ++ [e])
    (h : ∀ d, t.channelAt i = some d →
      ∃ c, s.channelAt i = some c ∧ ∀ pre, ReachedBy Γ i True pre c → ReachedBy Γ i calm (pre ++ [e]) d) : Follows Γ i calm s t :=
  ⟨fun hnone => absurd hnone hlive, [e], hcalls, h⟩

theorem mono {calm' : Prop} (h : Follows Γ i calm s t) (hcalm : calm' → calm) : Follows Γ i calm' s t := by
  obtain ⟨ces, hcalls, hchannel⟩ := h.channel
  refine ⟨h.dead, ces, hcalls, fun d hd => ?_⟩
  obtain ⟨c, hc, hreached⟩ := hchannel d hd
  exact ⟨c, hc, fun pre hpre => (hreached pre hpre).mono hcalm⟩

theorem trans (h : Follows Γ i True s t) (h' : Follows Γ i calm t u) : Follows Γ i calm s u := by
  obtain ⟨ces, hcalls, hchannel⟩ := h.channel
  obtain ⟨ces', hcalls', hchannel'⟩ := h'.channel
  refine ⟨fun hnone => ?_, ces ++ ces', by rw [hcalls', hcalls, List.append_assoc], fun d hd => ?_⟩
  · obtain ⟨ht, heq⟩ := h.dead hnone
    obtain ⟨hu, heq'⟩ := h'.dead ht
    exact ⟨hu, heq'.trans heq⟩
  · obtain ⟨c', hc', hreached'⟩ := hchannel' d hd
    obtain ⟨c, hc, hreached⟩ := hchannel c' hc'
    refine ⟨c, hc, fun pre hpre => ?_⟩
    rw [← List.append_assoc]
    exact hreached' _ (hreached pre hpre)

instance : Std.Refl (Follows Γ i True) := ⟨fun _ => of_eq rfl rfl⟩

instance : IsTrans ConnectionManager (Follows Γ i True) := ⟨fun _ _ _ h h' => h.trans h'⟩

theorem of_wrote (h : s.Wrote t) : Follows Γ i calm s t :=
  of_live_eq (by rw [live, h.channels, live]) (h.filterMap_calls _ fun _ => rfl)

theorem of_buffered (h : s.Buffered t) : Follows Γ i calm s t := by
  obtain ⟨builder, reads, rfl⟩ := h
  exact of_eq rfl rfl

end Follows

/-! ## Calls on the channels -/

variable {Γ : Env} {i : Nat}

/-- A call more, on the handler at some index. -/
theorem channelEvents_of_calls {s t : ConnectionManager} {call : Call} (h : t.calls = s.calls ++ [call]) :
    t.channelEvents i = s.channelEvents i ++ (call.channelEvent i).toList := by
  unfold channelEvents
  rw [h, List.filterMap_append]
  cases he : call.channelEvent i with
  | none => simp [he]
  | some e => simp [he]

/-- One call on a channel, when what it leaves is what the channel on its own leaves. -/
theorem Follows.set {calm : Prop} {s t : ConnectionManager} {j : Nat} {c d : ChannelImpl} {call : Call} {e : ChannelEvent}
    (hc : s.channelAt j = some c) (hcalls : t.calls = s.calls ++ [call]) (hchannels : t.channels = s.channels.set j (some (.channel d)))
    (he : call.channelEvent i = if j = i then some e else none)
    (hd : ∀ pre, ReachedBy Γ j True pre c → ReachedBy Γ j calm (pre ++ [e]) d) : Follows Γ i calm s t := by
  have hlive := channelAt_eq_some.mp hc
  have hset := live_set (lt_of_live hlive) hchannels
  have hevents := channelEvents_of_calls (i := i) hcalls
  rw [he] at hevents
  by_cases hj : j = i
  · subst hj
    rw [if_pos rfl] at hevents
    refine .of_call (by rw [hlive]; exact Option.some_ne_none _) hevents fun d' hd' => ?_
    rw [channelAt_eq_some, hset j, if_pos rfl] at hd'
    cases hd'
    exact ⟨c, hc, hd⟩
  · rw [if_neg hj, Option.toList_none, List.append_nil] at hevents
    exact .of_live_eq ((hset i).trans (if_neg (Ne.symm hj))) hevents

/-- A call on channel 0. -/
theorem Follows.of_channel0 {calm : Prop} {s t : ConnectionManager} {j : Nat} {call : Call} {e : ChannelEvent}
    (hl : s.live j = some .channel0) (hcalls : t.calls = s.calls ++ [call]) (hchannels : t.channels = s.channels)
    (he : call.channelEvent i = if j = i then some e else none) : Follows Γ i calm s t := by
  have hevents := channelEvents_of_calls (i := i) hcalls
  rw [he] at hevents
  have hlive : t.live i = s.live i := by rw [live, hchannels, live]
  by_cases hj : j = i
  · subst hj
    rw [if_pos rfl] at hevents
    refine .of_call (by rw [hl]; exact Option.some_ne_none _) hevents fun d hd => ?_
    rw [channelAt_eq_some, hlive, hl] at hd
    cases hd
  · rw [if_neg hj, Option.toList_none, List.append_nil] at hevents
    exact .of_live_eq hlive hevents

/-- `close_async` on the handler at an index, however it ends. -/
theorem follows_closeHandler (j : Nat) : Within (Follows Γ i True) (closeHandler j) := by
  intro s
  unfold closeHandler
  rcases hj : s.channels[j]? with _ | _ | h
  · simp only [Prog.bind_apply, Prog.get_apply, hj]
    exact refl_of (Follows Γ i True) s
  · simp only [Prog.bind_apply, Prog.get_apply, hj]
    exact refl_of (Follows Γ i True) s
  · have hlive : s.live j = some h := live_eq_some.mpr hj
    cases h with
    | channel0 =>
      simp only [Prog.bind_apply, Prog.get_apply, hj, record, Prog.modify_apply, Prog.throw_apply]
      exact Follows.of_channel0 hlive rfl rfl rfl
    | channel c =>
      have hat : s.channelAt j = some c := channelAt_eq_some.mpr hlive
      have hat' : ({ s with calls := s.calls ++ [.closeAsync j] } : ConnectionManager).channelAt j = some c := hat
      simp only [Prog.bind_apply, Prog.get_apply, hj, record, Prog.modify_apply, Prog.zoom, hat']
      cases hclose : ChannelImpl.closeAsync c with
      | undefined => trivial
      | _ => exact Follows.set hat rfl rfl rfl fun pre hpre => hpre.close (by rw [hclose]; exact rfl)

theorem follows_closeEach (is : List Nat) : Within (Follows Γ i True) (closeEach is) := by
  induction is with
  | nil => exact Within.pure _
  | cons j is ih => exact (follows_closeHandler j).bind fun _ => ih

/-- `on_socket_close`, however it ends. -/
theorem follows_onSocketClose (s : ConnectionManager) : (onSocketClose s).Leaves (Follows Γ i True s) := by
  have hclose : Within (Follows Γ i True) closeChannels :=
    Within.get.bind fun s => Within.ite Within.undefined (follows_closeEach _)
  have hclosed : Follows Γ i True s { s with state := .closedState } := .of_eq rfl rfl
  exact (hclose { s with state := .closedState }).imp fun t ht => hclosed.trans ht

/-! ## A frame -/

/-- However a handler ends: when it returns, no exception other than a connection exception has left a channel. -/
def Tracked (Γ : Env) (i : Nat) (s : ConnectionManager) : Outcome Exception ConnectionManager Unit → Prop
  | .ok _ t => Follows Γ i True s t
  | .throws _ t => Follows Γ i False s t
  | .undefined => True

theorem Tracked.of_leaves {s : ConnectionManager} {o : Outcome Exception ConnectionManager Unit} (h : o.Leaves (Follows Γ i True s)) :
    Tracked Γ i s o := by
  cases o with
  | ok a t => exact h
  | throws e t => exact h.mono fun _ => trivial
  | undefined => trivial

/-- What was there before a handler that is tracked. -/
theorem Tracked.of_follows {s t : ConnectionManager} {o : Outcome Exception ConnectionManager Unit} (h : Follows Γ i True s t)
    (ho : Tracked Γ i t o) : Tracked Γ i s o := by
  cases o with
  | ok a u => exact h.trans ho
  | throws e u => exact h.trans ho
  | undefined => trivial

/-- A handler that is tracked, and one that does not touch the channel after it. -/
theorem Tracked.bind {x : Prog Exception ConnectionManager Unit} {f : Unit → Prog Exception ConnectionManager Unit}
    {s : ConnectionManager} (hx : Tracked Γ i s (x s)) (hf : ∀ a, Within (Follows Γ i True) (f a)) : Tracked Γ i s ((x >>= f) s) := by
  rw [Prog.bind_apply]
  cases h : x s with
  | ok a t =>
    rw [h] at hx
    exact Tracked.of_follows hx (Tracked.of_leaves (hf a t))
  | throws e t =>
    rw [h] at hx
    exact hx
  | undefined => trivial

theorem follows_handleDeadChannelFrame (fr : Frame) (s : ConnectionManager) :
    (handleDeadChannelFrame Γ fr s).Leaves (Follows Γ i True s) := by
  refine (wrote_handleDeadChannelFrame Γ fr s).imp fun t ht => ?_
  refine Follows.trans ?_ (.of_wrote ht)
  exact .of_live_eq rfl (by rw [channelEvents_of_calls rfl]; exact List.append_nil _)

/-- A frame for a live handler: connection exceptions are caught, and every other exception ends the handler. -/
theorem tracked_dispatchToHandler {fr : Frame} {s : ConnectionManager} {h : FrameHandler} (hl : s.live fr.channel.toNat = some h) :
    Tracked Γ i s (dispatchToHandler Γ fr s) := by
  have hl' := live_eq_some.mp hl
  unfold dispatchToHandler processFrame
  cases h with
  | channel0 =>
    simp only [record, Prog.bind_apply, Prog.modify_apply, Prog.get_apply, hl', Prog.throw_apply, Prog.tryCatch_apply]
    exact Follows.of_channel0 hl rfl rfl rfl
  | channel c =>
    have hat : s.channelAt fr.channel.toNat = some c := channelAt_eq_some.mpr hl
    have hat' : ({ s with calls := s.calls ++ [.processFrame fr.channel.toNat fr] } : ConnectionManager).channelAt
        fr.channel.toNat = some c := hat
    simp only [record, Prog.bind_apply, Prog.modify_apply, Prog.get_apply, hl', Prog.zoom, hat', Prog.tryCatch_apply]
    cases hp : ChannelImpl.processFrame Γ fr c with
    | ok a d => exact Follows.set hat rfl rfl rfl fun pre hpre => hpre.frame_ok rfl hp
    | throws e d =>
      cases e with
      | connectionException => exact Follows.set hat rfl rfl rfl fun pre hpre => hpre.frame_throws rfl hp fun _ => rfl
      | _ => exact Follows.set hat rfl rfl rfl fun pre hpre => (hpre.mono fun _ => trivial).frame_throws rfl hp False.elim
    | undefined => trivial

theorem tracked_dispatchFrame (fr : Frame) (s : ConnectionManager) : Tracked Γ i s (dispatchFrame Γ fr s) := by
  by_cases hlt : fr.channel.toNat < s.channels.length
  · rw [DispatchAux.dispatchFrame_of_lt Γ hlt]
    rcases hl : s.live fr.channel.toNat with _ | h
    · rw [DispatchAux.dispatchToHandler_expired Γ hlt hl]
      exact Tracked.of_leaves (follows_handleDeadChannelFrame fr s)
    · exact tracked_dispatchToHandler hl
  · -- Past the end nothing comes back but what the first action throws.
    have hge := Nat.le_of_not_lt hlt
    by_cases hthrows : fr.type = .method ∧ ∃ e, Γ.spec.readFrame fr = .error e
    · obtain ⟨htype, e, hread⟩ := hthrows
      rw [DispatchAux.dispatchFrame_throws Γ hge htype hread]
      exact Tracked.of_leaves (follows_handleDeadChannelFrame fr s)
    · rw [DispatchAux.dispatchFrame_undefined Γ hge (DispatchAux.exists_read hthrows)]
      trivial

/-- A read that succeeded. -/
theorem tracked_onDone (r : AsyncRead) (s : ConnectionManager) : Tracked Γ i s (r.onDone Γ true s) := by
  have hreceive : ∀ s, Tracked Γ i s (receiveFrame Γ s) := by
    intro s
    unfold receiveFrame
    rcases hcreate : s.builder.createFrame Γ.constants with e | fr
    · simp only [Prog.bind_apply, Prog.get_apply, hcreate, Prog.lift_error]
      exact Follows.of_eq rfl rfl
    · simp only [Prog.bind_apply, Prog.get_apply, hcreate, Prog.lift_ok]
      exact (tracked_dispatchFrame fr s).bind fun _ _ => Follows.of_eq rfl rfl
  cases r with
  | body n m => exact hreceive s
  | header =>
    change Tracked Γ i s (onFrameHeaderRead Γ true s)
    unfold onFrameHeaderRead
    rcases hreq : s.builder.isBodyReadRequired Γ.constants with e | ⟨required, builder⟩
    · simp only [if_true, Prog.bind_apply, Prog.get_apply, hreq, Prog.lift_error]
      exact Follows.of_eq rfl rfl
    · simp only [if_true, Prog.bind_apply, Prog.get_apply, hreq, Prog.lift_ok, Prog.modify_apply, Prog.ite_apply]
      refine Tracked.of_follows (t := { s with builder := builder }) (.of_eq rfl rfl) ?_
      split
      · exact Tracked.of_leaves ((buffered_beginBodyRead Γ _).imp fun t ht => .of_buffered ht)
      · exact hreceive _

/-- No call of the manager is a request. -/
theorem isRequest_of_mem_channelEvents {s : ConnectionManager} {e : ChannelEvent} (h : e ∈ s.channelEvents i) : e.isRequest = false := by
  obtain ⟨call, -, he⟩ := List.mem_filterMap.mp h
  cases call with
  | processFrame j fr =>
    simp only [Call.channelEvent] at he
    split at he
    · cases he
      rfl
    · cases he
  | closeAsync j =>
    simp only [Call.channelEvent] at he
    split at he
    · cases he
      rfl
    · cases he
  | beginWriteFrame fr => cases he
  | handleDeadChannelFrame fr => cases he

/-! ## A step -/

/-- A new channel is at the end of the table. -/
theorem Opening.follows {s : ConnectionManager} {r : ConnectionRun} (h : Opening Γ s r) (hi : i < s.channels.length) :
    Follows Γ i (r.escaped = none) s r.manager := by
  have hlive : ∀ {k : Option FrameHandler}, r.manager.channels = s.channels ++ [k] → r.manager.live i = s.live i := by
    intro k hk
    rw [live, live, hk, List.getElem?_append_left hi]
  cases h with
  | outOfChannels h hr =>
    subst hr
    exact .of_eq rfl rfl
  | opened h hopen ht hr =>
    subst hr
    exact .of_live_eq (hlive ht.channels) (ht.filterMap_calls _ fun _ => rfl)
  | lost h hopen e hr => exact .of_live_eq (hlive (by rw [hr])) (by rw [hr]; rfl)
  | thrown h hopen he hr => exact .of_live_eq (hlive (by rw [hr]; rfl)) (by rw [hr]; rfl)

/-- What is new past the end of the table: nothing, or a channel that its constructor just made. -/
theorem Opening.fresh {s : ConnectionManager} {r : ConnectionRun} (h : Opening Γ s r) (hi : s.channels.length ≤ i) :
    r.manager.channelEvents i = s.channelEvents i ∧ ∀ d, r.manager.channelAt i = some d → d = .create (UInt16.ofNat i) := by
  have hfresh : ∀ {k : Option FrameHandler} {d : ChannelImpl}, r.manager.channels = s.channels ++ [k] →
      r.manager.channelAt i = some d → i = s.channels.length ∧ k = some (.channel d) := by
    intro k d hk hd
    have hlive := live_eq_some.mp (channelAt_eq_some.mp hd)
    have hlt := lt_of_live (channelAt_eq_some.mp hd)
    rw [hk, List.length_append, List.length_singleton] at hlt
    obtain rfl : i = s.channels.length := by omega
    rw [hk, List.getElem?_concat_length] at hlive
    exact ⟨rfl, Option.some.inj hlive⟩
  cases h with
  | outOfChannels h hr =>
    subst hr
    refine ⟨rfl, fun d hd => ?_⟩
    have hlt := lt_of_live (channelAt_eq_some.mp hd)
    exact absurd hlt (Nat.not_lt.mpr hi)
  | opened h hopen ht hr =>
    subst hr
    refine ⟨ht.filterMap_calls _ fun _ => rfl, fun d hd => ?_⟩
    obtain ⟨rfl, hk⟩ := hfresh ht.channels hd
    cases hk
    rfl
  | lost h hopen e hr =>
    refine ⟨by rw [hr]; rfl, fun d hd => ?_⟩
    obtain ⟨-, hk⟩ := hfresh (k := none) (by rw [hr]) hd
    cases hk
  | thrown h hopen he hr =>
    refine ⟨by rw [hr]; rfl, fun d hd => ?_⟩
    obtain ⟨rfl, hk⟩ := hfresh (by rw [hr]; rfl) hd
    cases hk
    rfl

/-- What is left of a run after a handler that is tracked. -/
theorem Follows.of_tracked {e : ConnectionEvent} {s t : ConnectionManager} {o : Outcome Exception ConnectionManager Unit}
    {r : ConnectionRun} (hst : Follows Γ i True s t) (h : ConnectionRun.afterHandler e o = some r) (ho : Tracked Γ i t o) :
    Follows Γ i (r.escaped = none) s r.manager := by
  have hs := Tracked.of_follows hst ho
  cases o with
  | ok a u =>
    cases h
    exact hs.mono fun _ => trivial
  | throws ex u =>
    cases h
    exact hs.mono fun hnone => Option.some_ne_none _ hnone
  | undefined => cases h

/-- What is left of a run after a handler that stays within the relation. -/
theorem Follows.of_leaves {e : ConnectionEvent} {s : ConnectionManager} {o : Outcome Exception ConnectionManager Unit}
    {r : ConnectionRun} (h : ConnectionRun.afterHandler e o = some r) (ho : o.Leaves (Follows Γ i True s)) :
    Follows Γ i (r.escaped = none) s r.manager :=
  (ConnectionRun.afterHandler_leaves h ho).mono fun _ => trivial

/-- Every step but a request on the channel and the opening of a new one. -/
theorem follows_of_next {m : ConnectionManager} {e : ConnectionEvent} {r : ConnectionRun} (h : ConnectionRun.next Γ m e = some r)
    (he : e.request i = none) (hopen : e ≠ .startOpenChannel) : Follows Γ i (r.escaped = none) m r.manager := by
  cases e with
  | startOpenChannel => exact absurd rfl hopen
  | beginWriteFrame fr => exact .of_leaves h ((wrote_runBeginWriteFrame Γ fr m).imp fun t ht => .of_wrote ht)
  | transmit j =>
    obtain ⟨t, ht, rfl⟩ := Option.map_eq_some_iff.mp h
    exact .of_wrote (wrote_of_transmit ht)
  | writeDone j ok =>
    have herase : Follows Γ i True m { m with writes := m.writes.eraseIdx j } := .of_eq rfl rfl
    simp only [ConnectionRun.next] at h
    split at h
    · split at h
      · cases h
      · cases ok with
        | true => exact .of_leaves h ((wrote_onWriteFrame Γ _).imp fun t ht => herase.trans (.of_wrote ht))
        | false => exact .of_leaves h ((follows_onSocketClose _).imp fun t ht => herase.trans ht)
    · cases h
  | readDone j bytes =>
    have herase : Follows Γ i True m { m with reads := m.reads.eraseIdx j } := .of_eq rfl rfl
    simp only [ConnectionRun.next] at h
    split at h
    · split at h
      · cases h
      · rename_i read bytes _ _
        have hfill : Follows Γ i True m { m with reads := m.reads.eraseIdx j, builder := read.fill m.builder bytes } :=
          .of_eq rfl rfl
        exact .of_tracked hfill h (tracked_onDone _ _)
    · rename_i read _
      have hclose := (follows_onSocketClose { m with reads := m.reads.eraseIdx j }).imp fun t ht => herase.trans ht
      cases read with
      | header => exact .of_leaves h hclose
      | body n k => exact .of_leaves h hclose
    · cases h
  | destroyChannel j =>
    obtain ⟨c, d, hc, -, hr⟩ := ConnectionRun.afterUser_leaves h
      (Prog.Within.leaves_zoom (ChannelImpl.destroyed_destroy Γ) m)
    have hset := live_set (t := { m with channels := m.channels.set j none }) (lt_of_live (channelAt_eq_some.mp hc)) rfl i
    rw [hr]
    by_cases hj : i = j
    · rw [if_pos hj] at hset
      refine ⟨fun _ => ⟨hset, rfl⟩, [], (List.append_nil _).symm, fun d hd => ?_⟩
      rw [channelAt_eq_some, hset] at hd
      cases hd
    · exact .of_live_eq (hset.trans (if_neg hj)) rfl
  | beginRpc j method classId methodId =>
    obtain ⟨c, d, hc, -, hr⟩ := ConnectionRun.afterUser_leaves h
      (Prog.Within.leaves_zoom (ChannelImpl.within_beginRpc Γ method classId methodId) m)
    have hset := live_set (t := m.setChannel j d) (lt_of_live (channelAt_eq_some.mp hc)) rfl i
    have hj : i ≠ j := by
      rintro rfl
      simp [ConnectionEvent.request] at he
    rw [hr]
    exact .of_live_eq (hset.trans (if_neg hj)) rfl

/-- A request on the channel. -/
theorem request_of_next {m : ConnectionManager} {method : Method} {classId methodId : UInt16} {r : ConnectionRun}
    (h : ConnectionRun.next Γ m (.beginRpc i method classId methodId) = some r) :
    r.escaped = none ∧ r.manager.channelEvents i = m.channelEvents i ∧ ∃ c d, m.channelAt i = some c ∧
      r.manager.channelAt i = some d ∧ ∀ pre, ReachedBy Γ i True pre c → ReachedBy Γ i True (pre ++ [.beginRpc method classId methodId]) d := by
  simp only [ConnectionRun.next, Prog.zoom] at h
  cases hc : m.channelAt i with
  | none =>
    rw [hc] at h
    cases h
  | some c =>
    have hat : ∀ d, (m.setChannel i d).channelAt i = some d := by
      intro d
      rw [channelAt_eq_some, live_set (t := m.setChannel i d) (lt_of_live (channelAt_eq_some.mp hc)) rfl, if_pos rfl]
    rw [hc] at h
    simp only at h
    cases hb : ChannelImpl.beginRpc Γ method classId methodId c with
    | undefined =>
      rw [hb] at h
      cases h
    | _ =>
      rw [hb] at h
      cases h
      exact ⟨rfl, rfl, c, _, rfl, hat _, fun pre hpre => hpre.rpc (by rw [hb]; exact rfl)⟩

end ConnectionManager

end Amqpp
