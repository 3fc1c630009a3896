import Amqpp.Codegen.Frames
import Amqpp.Connection.Outgoing
import Amqpp.Lib.Queued

/-!
# The io_service

Posted handlers wait in the queue of the io_service, whose one thread runs them in the order in which they were posted:
`begin_open_channel` posts `start_open_channel`, and `write_frame_async` and the channels (through `begin_write_method`) post
`begin_write_frame`. `io_service::run` returns once no handler waits and no read or write is outstanding: then nothing runs
any more, but users go on making their calls. An exception that leaves it leaves the function of its thread, and that ends the
process.
-/

namespace Amqpp

/-- A handler that was posted. -/
inductive Task where
  | beginWriteFrame (fr : Frame)
  | startOpenChannel
  deriving DecidableEq, Repr

namespace Task

/-- The handler runs. -/
def event : Task → ConnectionEvent
  | beginWriteFrame fr => .beginWriteFrame fr
  | startOpenChannel => .startOpenChannel

/-- The frame that was posted. -/
def frame? : Task → Option Frame
  | beginWriteFrame fr => some fr
  | startOpenChannel => none

end Task

namespace ConnectionEvent

/-- A posted handler runs. -/
def isTask : ConnectionEvent → Bool
  | beginWriteFrame _ | startOpenChannel => true
  | _ => false

/-- A user makes a call. -/
def isUser : ConnectionEvent → Bool
  | destroyChannel _ | beginRpc .. => true
  | _ => false

end ConnectionEvent

/-! ## What is posted -/

/-- The frame that a channel says goodbye with. -/
def Env.goodbye (Γ : Env) (channelId : UInt16) : Except Exception Frame := do
  createFromMethod Γ.memory channelId (← Γ.createClose 200 [] 0 0)

/-- The frame made of a method is for the channel. -/
theorem channel_of_createFromMethod {memory : Nat → UInt8} {channel : UInt16} {m : Method} {fr : Frame}
    (h : createFromMethod memory channel m = .ok fr) : fr.channel = channel := by
  obtain ⟨bs, -, h⟩ := Except.bind_eq_ok.mp h
  split at h
  · cases h
    rfl
  · cases h

/-- It can always be made. -/
theorem Env.exists_goodbye (Γ : Env) (channelId : UInt16) : ∃ fr, Γ.goodbye channelId = .ok fr := by
  have hargs := Γ.channelClose_arguments
  have hlen : Γ.channelClose.arguments.length ≤ 32 := by
    rw [hargs]
    decide
  let x : Assignment Γ.channelClose :=
    ⟨[.short 200, .shortstr [], .short 0, .short 0], hargs.symm, by simp [Value.Accepted, Value.validate, validateShortstring]⟩
  have hsize : (x.method Γ.channel).encodedSize = 11 := by
    rw [Method.encodedSize, Assignment.method, hargs]
    rfl
  obtain ⟨body, hbody⟩ := exists_codes (c := Γ.channel) (bitRunsLe_of_length hlen) x (by omega)
  obtain ⟨-, hcreate⟩ := createFromMethod_of_codes (c := Γ.channel) hbody (by omega) Γ.memory channelId
  exact ⟨_, hcreate⟩

/-- What the destructor hands to `io_service::post`. -/
def ChannelImpl.destructorPosts (Γ : Env) (c : ChannelImpl) : List Frame :=
  match destroy Γ c with
  | .ok _ d | .throws _ d => d.posted.drop c.posted.length
  | .undefined => []

/-- The destructor posts the goodbye. -/
theorem ChannelImpl.destructorPosts_eq {Γ : Env} {c : ChannelImpl} {fr : Frame} (h : Γ.goodbye c.channelId = .ok fr) :
    c.destructorPosts Γ = [fr] := by
  obtain ⟨close, hclose, hframe⟩ := Except.bind_eq_ok.mp h
  unfold destructorPosts destroy close_ beginWriteMethod setContinuation
  simp [hclose, hframe]

namespace ConnectionManager

/-- `write_frame_async`: the handler that it posts. -/
def writeFrameAsync (fr : Frame) (s : ConnectionManager) : Except Exception Task :=
  if s.state = .openState then .ok (.beginWriteFrame fr)
  else .error (.runtimeError "Attempted to use a connection that isn't open")

/-- `begin_open_channel`: the handler that it posts. -/
def beginOpenChannel (_s : ConnectionManager) : Except Exception Task := .ok .startOpenChannel

/-- What the channel at an index handed to `io_service::post` from `s` to `t`: what is new in its list while it lives, and
what its destructor posted when it went. -/
def postsAt (Γ : Env) (s t : ConnectionManager) (i : Nat) : List Frame :=
  let c := (s.channelAt i).getD (.create (UInt16.ofNat i))
  match t.live i with
  | some (.channel d) => d.posted.drop c.posted.length
  | some .channel0 => []
  | none => if (s.live i).isNone ∧ i < s.channels.length then [] else c.destructorPosts Γ

/-- What all channels handed to `io_service::post` from `s` to `t`. -/
def posts (Γ : Env) (s t : ConnectionManager) : List Frame := (List.range t.channels.length).flatMap (s.postsAt Γ t)

end ConnectionManager

/-- The queue of the io_service, and what its thread waits for besides. -/
def taskQueue (Γ : Env) : Machine.Tasks ConnectionRun ConnectionEvent Task where
  event := Task.event
  isTask := ConnectionEvent.isTask
  isTask_event := fun task => by cases task <;> rfl
  isOutside := ConnectionEvent.isUser
  isIdle := fun r => r.manager.reads.isEmpty && r.manager.writes.isEmpty
  accepts := fun r task =>
    r.escaped.isNone && match task with
      | .beginWriteFrame fr => (r.manager.writeFrameAsync fr).isOk
      | .startOpenChannel => r.manager.beginOpenChannel.isOk
  posts := fun r r' => (r.manager.posts Γ r'.manager).map .beginWriteFrame

/-- The manager with its io_service, from the start of the read loop on. -/
def serviceMachine (Γ : Env) : Machine (Machine.Queued ConnectionRun Task) (Machine.QueuedEvent ConnectionEvent Task) :=
  (connectionMachine Γ).queued (taskQueue Γ)

/-! ## Users on their own -/

/-- From `c` to `d` requests were made on a channel, and no frame came: what was satisfied is the same, and whatever was
satisfied since is a broken promise. -/
structure ChannelImpl.Unanswered (c d : ChannelImpl) : Prop where
  opened : d.channelOpenedPromise = c.channelOpenedPromise
  closed : d.channelClosedPromise = c.channelClosedPromise
  kept : ∀ (j : Nat) (p : Promise Exception Method), c.rpcPromises[j]? = some p → p.isSatisfied = true → d.rpcPromises[j]? = some p
  broken : ∀ (j : Nat) (p : Promise Exception Method), d.rpcPromises[j]? = some p → p.isSatisfied = true →
    c.satisfied (.rpc j) = false → p = .exception .brokenPromise

namespace ChannelImpl

open Prog (Within)

theorem Unanswered.of_eq {c d : ChannelImpl} (hopened : d.channelOpenedPromise = c.channelOpenedPromise)
    (hclosed : d.channelClosedPromise = c.channelClosedPromise) (hrpc : d.rpcPromises = c.rpcPromises) : Unanswered c d := by
  refine ⟨hopened, hclosed, fun j p hp _ => hrpc ▸ hp, fun j p hp hsat hunset => ?_⟩
  rw [hrpc] at hp
  rw [satisfied_rpc hp, hsat] at hunset
  cases hunset

instance : Std.Refl Unanswered := ⟨fun _ => .of_eq rfl rfl rfl⟩

instance : IsTrans ChannelImpl Unanswered := by
  refine ⟨fun c d e h h' => ⟨h'.opened.trans h.opened, h'.closed.trans h.closed, fun j p hp hsat =>
    h'.kept j p (h.kept j p hp hsat) hsat, fun j p hp hsat hunset => ?_⟩⟩
  rcases hd : d.satisfied (.rpc j) with _ | _
  · exact h'.broken j p hp hsat hd
  · obtain ⟨q, hq, hqsat⟩ := exists_of_satisfied_rpc hd
    obtain rfl : q = p := Option.some.inj ((h'.kept j q hq hqsat).symm.trans hp)
    exact h.broken j q hq hqsat hunset

/-- A new promise. -/
theorem unanswered_makeRpcPromise : Within Unanswered makeRpcPromise := by
  intro c
  refine ⟨rfl, rfl, fun j p hp _ => ?_, fun j p hp hsat hunset => ?_⟩
  · have hj : j < c.rpcPromises.length := (List.getElem?_eq_some_iff.mp hp).1
    exact (List.getElem?_append_left hj).trans hp
  · rcases Nat.lt_or_ge j c.rpcPromises.length with hj | hj
    · rw [List.getElem?_append_left hj] at hp
      rw [satisfied_rpc hp, hsat] at hunset
      cases hunset
    · rw [List.getElem?_append_right hj] at hp
      rw [List.mem_singleton.mp (List.mem_of_getElem? hp)] at hsat
      cases hsat

/-- A new handler, which takes the place of another one. -/
theorem unanswered_setContinuation (continuation : Continuation) : Within Unanswered (setContinuation continuation) := by
  refine Within.modify fun c => ?_
  rcases c.dropContinuation_cases with hsame | ⟨i, -, hrpc⟩
  · have hrpc : c.dropContinuation.rpcPromises = c.rpcPromises := congrArg rpcPromises hsame
    exact .of_eq rfl rfl hrpc
  · refine ⟨rfl, rfl, fun j p hp hsat => ?_, fun j p hp hsat hunset => ?_⟩
    · change c.dropContinuation.rpcPromises[j]? = some p
      rw [hrpc, List.getElem?_modify, hp]
      split
      · exact congrArg some (Promise.destroy_of_isSatisfied _ hsat)
      · rfl
    · change c.dropContinuation.rpcPromises[j]? = some p at hp
      rw [hrpc, List.getElem?_modify] at hp
      obtain ⟨q, hq, hpq⟩ := Option.map_eq_some_iff.mp hp
      have hqunset : q = .unset := Promise.eq_unset ((satisfied_rpc hq).symm.trans hunset)
      subst hqunset
      split at hpq
      · exact hpq.symm
      · rw [← hpq] at hsat
        cases hsat

/-- A request waits for its answer, if it is made at all. -/
theorem unanswered_beginRpc (Γ : Env) (method : Method) (classId methodId : UInt16) :
    Within Unanswered (beginRpc Γ method classId methodId) := by
  refine Within.get.bind fun s => Within.ite ?_ (Within.throw _)
  refine (Within.lift _).bind fun _ => unanswered_makeRpcPromise.bind fun _ => ?_
  refine (unanswered_setContinuation _).bind fun _ => Within.bind ?_ fun _ => Within.pure _
  exact Within.get.bind fun s => (Within.lift _).bind fun fr => Within.modify fun _ => .of_eq rfl rfl rfl

end ChannelImpl

namespace ConnectionManager

open ChannelImpl (Unanswered)

/-- From `s` to `t` users made requests and dropped channels, and nobody answered them. -/
structure Stopped (s t : ConnectionManager) : Prop where
  submitted : t.submitted = s.submitted
  socket : t.socket = s.socket
  reads : t.reads = s.reads
  writes : t.writes = s.writes
  channelPromises : t.channelPromises = s.channelPromises
  channel : ∀ i d, t.channelAt i = some d → ∃ c, s.channelAt i = some c ∧ Unanswered c d

instance : Std.Refl Stopped := ⟨fun _ => ⟨rfl, rfl, rfl, rfl, rfl, fun _ d hd => ⟨d, hd, refl_of Unanswered d⟩⟩⟩

instance : IsTrans ConnectionManager Stopped := by
  refine ⟨fun s t u h h' => ⟨h'.submitted.trans h.submitted, h'.socket.trans h.socket, h'.reads.trans h.reads,
    h'.writes.trans h.writes, h'.channelPromises.trans h.channelPromises, fun i e he => ?_⟩⟩
  obtain ⟨d, hd, hde⟩ := h'.channel i e he
  obtain ⟨c, hc, hcd⟩ := h.channel i d hd
  exact ⟨c, hc, trans_of Unanswered hcd hde⟩

/-- The channel at an index is replaced, or goes. -/
theorem Stopped.set {s t : ConnectionManager} {i : Nat} {h : Option FrameHandler} (hi : i < s.channels.length)
    (hchannels : t.channels = s.channels.set i h) (hsubmitted : t.submitted = s.submitted) (hsocket : t.socket = s.socket)
    (hreads : t.reads = s.reads) (hwrites : t.writes = s.writes) (hpromises : t.channelPromises = s.channelPromises)
    (hnew : ∀ d, h = some (.channel d) → ∃ c, s.channelAt i = some c ∧ Unanswered c d) : Stopped s t := by
  refine ⟨hsubmitted, hsocket, hreads, hwrites, hpromises, fun j d hd => ?_⟩
  rw [channelAt_eq_some, live_set hi hchannels] at hd
  split at hd
  · rename_i hj
    exact hj ▸ hnew d hd
  · exact ⟨d, channelAt_eq_some.mpr hd, refl_of Unanswered d⟩

/-- A call of a user. -/
theorem stopped_of_isUser {Γ : Env} {m : ConnectionManager} {e : ConnectionEvent} {r : ConnectionRun} (he : e.isUser = true)
    (h : ConnectionRun.next Γ m e = some r) : m.Stopped r.manager := by
  cases e with
  | destroyChannel i =>
    obtain ⟨c, d, hc, -, hr⟩ := ConnectionRun.afterUser_leaves h
      (Prog.Within.leaves_zoom (ChannelImpl.destroyed_destroy Γ) m)
    rw [hr]
    exact .set (lt_of_live (channelAt_eq_some.mp hc)) rfl rfl rfl rfl rfl rfl fun d hd => by cases hd
  | beginRpc i method classId methodId =>
    obtain ⟨c, d, hc, hd, hr⟩ := ConnectionRun.afterUser_leaves h
      (Prog.Within.leaves_zoom (ChannelImpl.unanswered_beginRpc Γ method classId methodId) m)
    rw [hr]
    refine .set (lt_of_live (channelAt_eq_some.mp hc)) rfl rfl rfl rfl rfl rfl fun d' hd' => ?_
    cases hd'
    exact ⟨c, hc, hd⟩
  | _ => cases he

end ConnectionManager

/-! ## What leaves on a channel -/

/-- The frames of a list on a channel. -/
def onChannel (i : Nat) (frs : List Frame) : List Frame := frs.filter fun fr => fr.channel.toNat = i

/-- The frames on a channel that were passed to `begin_write_frame` or wait in the queue. -/
def outgoing (i : Nat) (q : Machine.Queued ConnectionRun Task) : List Frame :=
  onChannel i (q.state.manager.submitted ++ q.tasks.filterMap Task.frame?)

theorem onChannel_append (i : Nat) (frs frs' : List Frame) : onChannel i (frs ++ frs') = onChannel i frs ++ onChannel i frs' :=
  List.filter_append frs frs'

/-- A frame on its own. -/
theorem onChannel_singleton (i : Nat) (fr : Frame) : onChannel i [fr] = if fr.channel.toNat = i then [fr] else [] := by
  simp [onChannel, List.filter_cons]

end Amqpp
