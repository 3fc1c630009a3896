import Amqpp.Channel.Basic

/-!
# What one call does to a channel

One lemma for each outcome of `process_frame` and `begin_rpc`, and what neither of them touches: the number of the channel,
the promise of its closing and the future read for it.
-/

namespace Amqpp

/-- The promise that the continuation satisfies. -/
def Continuation.awaits : Continuation → Option PromiseId
  | .processOpen => some .channelOpened
  | .rpcHandler _ _ promise => some (.rpc promise)
  | .closedHandler => none

namespace ChannelImpl

/-! ## Giving the promises their values -/

/-- The next state has the promise `p` satisfied, and nothing else has changed but promises. -/
structure Settles (p : PromiseId) (s t : ChannelImpl) : Prop where
  satisfied : t.satisfied p = true
  continuation : t.continuation = s.continuation
  length : t.rpcPromises.length = s.rpcPromises.length

/-- `set` is a way to satisfy `p`: it works once. -/
structure Sets (p : PromiseId) (set : ChannelImpl → Except Exception ChannelImpl) : Prop where
  again : ∀ s, s.satisfied p = true → set s = .error .promiseAlreadySatisfied
  first : ∀ s, s.satisfied p = false → (∀ i, p = .rpc i → i < s.rpcPromises.length) → ∃ t, set s = .ok t ∧ Settles p s t

/-- A promise is satisfied once. -/
def Once {α : Type} (set : Promise Exception α → Except Exception (Promise Exception α)) : Prop :=
  Promise.Satisfies .promiseAlreadySatisfied set

theorem once_setValue {α : Type} (v : α) : Once (setValue v) := Promise.satisfies_setValue _ v

theorem once_setException {α : Type} : Once (setException (α := α)) := Promise.satisfies_setException _ _

theorem sets_updateOpened {set : Promise Exception Bool → Except Exception (Promise Exception Bool)} (hset : Once set) :
    Sets .channelOpened (updateOpened set) := by
  constructor
  · intro s h
    unfold updateOpened
    rw [hset.again _ h]
    rfl
  · intro s h _
    have hunset : s.channelOpenedPromise = .unset := Promise.eq_unset h
    obtain ⟨p, hp, hsat⟩ := hset.first
    refine ⟨{ s with channelOpenedPromise := p }, ?_, hsat, rfl, rfl⟩
    unfold updateOpened
    rw [hunset, hp]
    rfl

/-- Whether the promise of an RPC is satisfied, when there is one. -/
theorem satisfied_rpc {s : ChannelImpl} {i : Nat} {p : Promise Exception Method} (h : s.rpcPromises[i]? = some p) :
    s.satisfied (.rpc i) = p.isSatisfied := by
  simp only [satisfied, h, Option.any_some]

/-- A promise of an RPC that is satisfied is there. -/
theorem exists_of_satisfied_rpc {s : ChannelImpl} {i : Nat} (h : s.satisfied (.rpc i) = true) :
    ∃ p, s.rpcPromises[i]? = some p ∧ p.isSatisfied = true := by
  rcases hp : s.rpcPromises[i]? with _ | p
  · simp only [satisfied, hp, Option.any_none, Bool.false_eq_true] at h
  · exact ⟨p, rfl, (satisfied_rpc hp).symm.trans h⟩

/-- A promise of an RPC that is there and not satisfied. -/
theorem getElem?_of_unset_rpc {s : ChannelImpl} {i : Nat} (h : s.satisfied (.rpc i) = false)
    (hi : i < s.rpcPromises.length) : s.rpcPromises[i]? = some .unset := by
  have hget := List.getElem?_eq_getElem hi
  rw [hget, Promise.eq_unset ((satisfied_rpc hget).symm.trans h)]

theorem sets_updateRpc (i : Nat) {set : Promise Exception Method → Except Exception (Promise Exception Method)}
    (hset : Once set) : Sets (.rpc i) (updateRpc i set) := by
  constructor
  · intro s h
    obtain ⟨p, hget, hp⟩ := exists_of_satisfied_rpc h
    unfold updateRpc
    simp only [hget, hset.again p hp]
    rfl
  · intro s h hi
    have hget := getElem?_of_unset_rpc h (hi i rfl)
    obtain ⟨p, hp, hsat⟩ := hset.first
    have hget' : (s.rpcPromises.set i p)[i]? = some p := List.getElem?_set_self (hi i rfl)
    refine ⟨{ s with rpcPromises := s.rpcPromises.set i p }, ?_, (satisfied_rpc hget').trans hsat, rfl, List.length_set⟩
    unfold updateRpc
    simp only [hget, hp]
    rfl

/-! ## A frame -/

/-- What a handler throws on when the frame is not the method it awaits. -/
def IsHandlerError (e : Exception) : Prop := e = .connectionException ∨ e.IsReadError

theorem IsHandlerError.ne_promiseAlreadySatisfied {e : Exception} (h : IsHandlerError e) :
    e ≠ .promiseAlreadySatisfied := by
  rintro rfl
  rcases h with h | ⟨what, h⟩ | h <;> cases h

variable (Γ : Env)

section await

variable {p : PromiseId} {classId methodId : UInt16} {setValue : Method → ChannelImpl → Except Exception ChannelImpl}
  {setException : ChannelImpl → Except Exception ChannelImpl} (hv : ∀ m, Sets p (setValue m)) (he : Sets p setException)

include hv he

/-- On a promise that is satisfied, whatever the frame, the handler fails: its own `catch` block satisfies the promise
again. -/
theorem awaitMethod_of_satisfied {s : ChannelImpl} (h : s.satisfied p = true) (fr : Frame) :
    awaitMethod Γ classId methodId setValue setException fr s = .throws .promiseAlreadySatisfied s := by
  have hexc := Prog.update_of_error (he.again s h)
  unfold awaitMethod
  by_cases htype : fr.type = .method
  · rcases hread : Γ.spec.readFrame fr with e | m
    · simp [htype, hexc]
    · have hval := Prog.update_of_error ((hv m).again s h)
      by_cases hids : m.classId = classId ∧ m.desc.index = methodId
      · simp [htype, hids, hval, hexc]
      · simp [htype, hids, hexc]
  · simp [htype, hexc]

/-- On a promise that is not satisfied, the handler satisfies it, whatever the frame. -/
theorem awaitMethod_of_unset {s : ChannelImpl} (h : s.satisfied p = false)
    (hi : ∀ i, p = .rpc i → i < s.rpcPromises.length) (fr : Frame) :
    ∃ t, Settles p s t ∧ (awaitMethod Γ classId methodId setValue setException fr s = .ok () t ∨
      ∃ e, IsHandlerError e ∧ awaitMethod Γ classId methodId setValue setException fr s = .throws e t) := by
  obtain ⟨u, hu, hsettles⟩ := he.first s h hi
  have hexc := Prog.update_of_ok hu
  unfold awaitMethod
  by_cases htype : fr.type = .method
  · rcases hread : Γ.spec.readFrame fr with e | m
    · refine ⟨u, hsettles, Or.inr ⟨e, Or.inr (Γ.spec.readFrame_isReadError hread), ?_⟩⟩
      simp [htype, hexc]
    · obtain ⟨t, ht, hsettles'⟩ := (hv m).first s h hi
      have hval := Prog.update_of_ok ht
      by_cases hids : m.classId = classId ∧ m.desc.index = methodId
      · exact ⟨t, hsettles', Or.inl (by simp [htype, hids, hval])⟩
      · refine ⟨u, hsettles, Or.inr ⟨.connectionException, Or.inl rfl, ?_⟩⟩
        simp [htype, hids, hexc]
  · refine ⟨u, hsettles, Or.inr ⟨.connectionException, Or.inl rfl, ?_⟩⟩
    simp [htype, hexc]

end await

/-- The continuation on a frame, once its promise is satisfied. -/
theorem runContinuation_of_satisfied {s : ChannelImpl} {p : PromiseId} (ha : s.continuation.awaits = some p)
    (h : s.satisfied p = true) (fr : Frame) : runContinuation Γ fr s = .throws .promiseAlreadySatisfied s := by
  unfold runContinuation
  simp only [Prog.bind_apply, Prog.get_apply]
  cases hc : s.continuation with
  | processOpen =>
    rw [hc] at ha
    cases ha
    exact awaitMethod_of_satisfied Γ (fun _ => sets_updateOpened (once_setValue true)) (sets_updateOpened once_setException) h fr
  | rpcHandler classId methodId promise =>
    rw [hc] at ha
    cases ha
    exact awaitMethod_of_satisfied Γ (fun m => sets_updateRpc promise (once_setValue m))
      (sets_updateRpc promise once_setException) h fr
  | closedHandler =>
    rw [hc] at ha
    cases ha

/-- The continuation on a frame, as long as its promise is not satisfied. -/
theorem runContinuation_of_unset {s : ChannelImpl} {p : PromiseId} (ha : s.continuation.awaits = some p)
    (h : s.satisfied p = false) (hi : ∀ i, p = .rpc i → i < s.rpcPromises.length) (fr : Frame) :
    ∃ t, Settles p s t ∧ (runContinuation Γ fr s = .ok () t ∨
      ∃ e, IsHandlerError e ∧ runContinuation Γ fr s = .throws e t) := by
  unfold runContinuation
  simp only [Prog.bind_apply, Prog.get_apply]
  cases hc : s.continuation with
  | processOpen =>
    rw [hc] at ha
    cases ha
    exact awaitMethod_of_unset Γ (fun _ => sets_updateOpened (once_setValue true)) (sets_updateOpened once_setException) h hi fr
  | rpcHandler classId methodId promise =>
    rw [hc] at ha
    cases ha
    exact awaitMethod_of_unset Γ (fun m => sets_updateRpc promise (once_setValue m))
      (sets_updateRpc promise once_setException) h hi fr
  | closedHandler =>
    rw [hc] at ha
    cases ha

/-- `process_frame` on a frame that the continuation returns from. -/
theorem processFrame_of_ok {s t : ChannelImpl} {fr : Frame} (hch : fr.channel = s.channelId)
    (h : runContinuation Γ fr s = .ok () t) : processFrame Γ fr s = .ok () t := by
  unfold processFrame
  simp only [Prog.bind_apply, Prog.get_apply, hch, ne_eq, not_true_eq_false, if_false, Prog.tryCatch_apply, h]

/-- `process_frame` on a frame that the continuation throws on. -/
theorem processFrame_of_throws {s t : ChannelImpl} {fr : Frame} {e : Exception} (hch : fr.channel = s.channelId)
    (he : IsHandlerError e) (h : runContinuation Γ fr s = .throws e t) : processFrame Γ fr s = .throws e t := by
  unfold processFrame
  simp only [Prog.bind_apply, Prog.get_apply, hch, ne_eq, not_true_eq_false, if_false, Prog.tryCatch_apply, h]
  -- No handler throws a channel_exception, so the `catch` clause does not take what it throws.
  rcases he with rfl | ⟨what, rfl⟩ | rfl
  · rfl
  · rfl
  · rfl

/-- `process_frame` when the promise of the continuation is satisfied already. -/
theorem processFrame_of_satisfied {s : ChannelImpl} {p : PromiseId} {fr : Frame} (hch : fr.channel = s.channelId)
    (ha : s.continuation.awaits = some p) (h : s.satisfied p = true) :
    processFrame Γ fr s = .throws .promiseAlreadySatisfied s := by
  unfold processFrame
  simp only [Prog.bind_apply, Prog.get_apply, hch, ne_eq, not_true_eq_false, if_false, Prog.tryCatch_apply,
    runContinuation_of_satisfied Γ ha h, Prog.throw_apply]

/-- `process_frame` when the promise of the continuation is not satisfied: it is afterwards. -/
theorem processFrame_of_unset {s : ChannelImpl} {p : PromiseId} {fr : Frame} (hch : fr.channel = s.channelId)
    (ha : s.continuation.awaits = some p) (h : s.satisfied p = false)
    (hi : ∀ i, p = .rpc i → i < s.rpcPromises.length) :
    ∃ t, Settles p s t ∧ (processFrame Γ fr s = .ok () t ∨
      ∃ e, IsHandlerError e ∧ processFrame Γ fr s = .throws e t) := by
  obtain ⟨t, hsettles, hok | ⟨e, he, hthrows⟩⟩ := runContinuation_of_unset Γ ha h hi fr
  · exact ⟨t, hsettles, Or.inl (processFrame_of_ok Γ hch hok)⟩
  · exact ⟨t, hsettles, Or.inr ⟨e, he, processFrame_of_throws Γ hch he hthrows⟩⟩

/-! ## The handler that is replaced -/

/-- The promise that the replaced handler was bound with. -/
theorem rpcPromises_dropContinuation {s : ChannelImpl} {i : Nat} (h : s.continuation.awaits = some (.rpc i)) :
    s.dropContinuation.rpcPromises = s.rpcPromises.modify i (Promise.destroy .brokenPromise) := by
  cases hc : s.continuation with
  | rpcHandler classId methodId promise =>
    rw [hc] at h
    cases h
    simp only [dropContinuation, hc]
  | processOpen =>
    rw [hc] at h
    cases h
  | closedHandler =>
    rw [hc] at h
    cases h

/-- A handler without a promise of a request. -/
theorem dropContinuation_of_ne {s : ChannelImpl} (h : ∀ i, s.continuation.awaits ≠ some (.rpc i)) : s.dropContinuation = s := by
  obtain ⟨_, continuation, _, _, _, _, _⟩ := s
  cases continuation with
  | rpcHandler classId methodId promise => exact absurd rfl (h promise)
  | processOpen => rfl
  | closedHandler => rfl

/-- Either there was no promise to break, or one promise was destroyed. -/
theorem dropContinuation_cases (s : ChannelImpl) : s.dropContinuation = s ∨ ∃ i, s.continuation.awaits = some (.rpc i) ∧
    s.dropContinuation.rpcPromises = s.rpcPromises.modify i (Promise.destroy .brokenPromise) := by
  by_cases h : ∃ i, s.continuation.awaits = some (.rpc i)
  · obtain ⟨i, hi⟩ := h
    exact Or.inr ⟨i, hi, rpcPromises_dropContinuation hi⟩
  · exact Or.inl (dropContinuation_of_ne fun i hi => h ⟨i, hi⟩)

@[simp] theorem length_dropContinuation (s : ChannelImpl) : s.dropContinuation.rpcPromises.length = s.rpcPromises.length := by
  rcases s.dropContinuation_cases with h | ⟨i, -, h⟩
  · rw [h]
  · rw [h, List.length_modify]

/-- A replaced handler leaves no promise that is not satisfied. -/
theorem satisfied_dropContinuation_self {s : ChannelImpl} {i : Nat} (h : s.continuation.awaits = some (.rpc i))
    (hi : i < s.rpcPromises.length) : s.dropContinuation.satisfied (.rpc i) = true := by
  refine (satisfied_rpc (p := (s.rpcPromises[i]).destroy .brokenPromise) ?_).trans (Promise.isSatisfied_destroy _ _)
  rw [rpcPromises_dropContinuation h, List.getElem?_modify_eq, List.getElem?_eq_getElem hi]
  rfl

/-! ## A request -/

/-- A change of what is there, before something is added. -/
theorem modify_concat {α : Type} (f : α → α) {l : List α} {i : Nat} (hi : i < l.length) (a : α) :
    (l ++ [a]).modify i f = l.modify i f ++ [a] := by
  induction l generalizing i with
  | nil => cases hi
  | cons b l ih =>
    cases i with
    | zero => rfl
    | succ i => simp [ih (Nat.lt_of_succ_lt_succ hi)]

/-- `begin_rpc` of a method that can be encoded, as long as the future read for the closing is not ready: it replaces the
handler. -/
theorem beginRpc_of_ok {s : ChannelImpl} {m : Method} {fr : Frame} (hready : s.channelClosedFuture.isReady s.satisfied = false)
    (hi : ∀ i, s.continuation.awaits = some (.rpc i) → i < s.rpcPromises.length)
    (h : createFromMethod Γ.memory s.channelId m = .ok fr) (classId methodId : UInt16) :
    beginRpc Γ m classId methodId s = .ok ⟨some (.rpc s.rpcPromises.length)⟩
      { s with
        continuation := .rpcHandler classId methodId s.rpcPromises.length
        rpcPromises := s.dropContinuation.rpcPromises ++ [.unset]
        posted := s.posted ++ [fr] } := by
  have hdrop : ({ s with rpcPromises := s.rpcPromises ++ [.unset] } : ChannelImpl).dropContinuation =
      { s with rpcPromises := s.dropContinuation.rpcPromises ++ [.unset] } := by
    unfold dropContinuation
    cases hc : s.continuation with
    | rpcHandler classId methodId promise =>
      have hlt : promise < s.rpcPromises.length := hi promise (by rw [hc]; rfl)
      simp only [modify_concat _ hlt]
    | processOpen => rfl
    | closedHandler => rfl
  unfold beginRpc
  simp [hready, h, makeRpcPromise, setContinuation, beginWriteMethod, hdrop]

/-- `begin_rpc` of a method that cannot be encoded. -/
theorem beginRpc_of_error {s : ChannelImpl} {m : Method} {e : Exception}
    (hready : s.channelClosedFuture.isReady s.satisfied = false) (h : createFromMethod Γ.memory s.channelId m = .error e)
    (classId methodId : UInt16) : beginRpc Γ m classId methodId s = .throws e s := by
  unfold beginRpc
  simp [hready, h]

/-- `begin_rpc` once the future read for the closing is ready. -/
theorem beginRpc_of_ready {s : ChannelImpl} (hready : s.channelClosedFuture.isReady s.satisfied = true) (m : Method)
    (classId methodId : UInt16) : beginRpc Γ m classId methodId s = .throws (.runtimeError "Channel closed") s := by
  unfold beginRpc
  simp [hready]

/-! ## What calls leave alone -/

/-- The number of the channel, the promise of its closing and the future read for it are the same. -/
structure SameClosing (s t : ChannelImpl) : Prop where
  channelId : t.channelId = s.channelId
  channelClosedPromise : t.channelClosedPromise = s.channelClosedPromise
  channelClosedFuture : t.channelClosedFuture = s.channelClosedFuture

instance : Std.Refl SameClosing := ⟨fun _ => ⟨rfl, rfl, rfl⟩⟩

instance : IsTrans ChannelImpl SameClosing :=
  ⟨fun _ _ _ h h' => ⟨h'.1.trans h.1, h'.2.trans h.2, h'.3.trans h.3⟩⟩

theorem within_setContinuation (c : Continuation) : Prog.Within SameClosing (setContinuation c) :=
  Prog.Within.modify fun _ => ⟨rfl, rfl, rfl⟩

theorem within_beginWriteMethod (m : Method) : Prog.Within SameClosing (beginWriteMethod Γ m) :=
  Prog.Within.get.bind fun _ => (Prog.Within.lift _).bind fun _ => Prog.Within.modify fun _ => ⟨rfl, rfl, rfl⟩

theorem within_close_ (replyCode : UInt16) (replyText : List UInt8) (classId methodId : UInt16) :
    Prog.Within SameClosing (close_ Γ replyCode replyText classId methodId) :=
  (Prog.Within.lift _).bind fun _ => (within_setContinuation _).bind fun _ => within_beginWriteMethod Γ _

theorem within_updateOpened (set : Promise Exception Bool → Except Exception (Promise Exception Bool)) :
    Prog.Within SameClosing (Prog.update (updateOpened set)) := by
  refine Prog.Within.update fun s t h => ?_
  obtain ⟨p, -, hp⟩ := Except.bind_eq_ok.mp h
  cases hp
  exact ⟨rfl, rfl, rfl⟩

theorem within_updateRpc (i : Nat) (set : Promise Exception Method → Except Exception (Promise Exception Method)) :
    Prog.Within SameClosing (Prog.update (updateRpc i set)) := by
  refine Prog.Within.update fun s t h => ?_
  unfold updateRpc at h
  split at h
  · obtain ⟨p, -, hp⟩ := Except.bind_eq_ok.mp h
    cases hp
    exact ⟨rfl, rfl, rfl⟩
  · cases h

theorem within_awaitMethod {classId methodId : UInt16} {setValue : Method → ChannelImpl → Except Exception ChannelImpl}
    {setException : ChannelImpl → Except Exception ChannelImpl} (hv : ∀ m, Prog.Within SameClosing (Prog.update (setValue m)))
    (he : Prog.Within SameClosing (Prog.update setException)) (fr : Frame) :
    Prog.Within SameClosing (awaitMethod Γ classId methodId setValue setException fr) :=
  Prog.Within.tryCatch
    (Prog.Within.ite (Prog.Within.throw _)
      ((Prog.Within.lift _).bind fun m => Prog.Within.ite (hv m) (Prog.Within.throw _)))
    fun _ => he.bind fun _ => Prog.Within.throw _

theorem within_runContinuation (fr : Frame) : Prog.Within SameClosing (runContinuation Γ fr) := by
  refine Prog.Within.get.bind fun s => ?_
  cases s.continuation with
  | processOpen => exact within_awaitMethod Γ (fun _ => within_updateOpened _) (within_updateOpened _) fr
  | rpcHandler classId methodId promise =>
    exact within_awaitMethod Γ (fun _ => within_updateRpc promise _) (within_updateRpc promise _) fr
  | closedHandler => exact Prog.Within.pure ()

theorem within_processFrame (fr : Frame) : Prog.Within SameClosing (processFrame Γ fr) := by
  refine Prog.Within.get.bind fun s => Prog.Within.ite (Prog.Within.throw _) ?_
  refine Prog.Within.tryCatch (within_runContinuation Γ fr) fun e => ?_
  cases e with
  | channelException replyCode replyText classId methodId => exact within_close_ Γ _ _ _ _
  | _ => exact Prog.Within.throw _

/-- What `process_frame` leaves has the same closing. -/
theorem sameClosing_of_processFrame {fr : Frame} {s t : ChannelImpl} (h : (processFrame Γ fr s).Ends (· = t)) : SameClosing s t := by
  have hwithin := within_processFrame Γ fr s
  cases hp : processFrame Γ fr s with
  | ok a u =>
    rw [hp] at h hwithin
    cases h
    exact hwithin
  | throws e u =>
    rw [hp] at h hwithin
    cases h
    exact hwithin
  | undefined =>
    rw [hp] at h
    cases h

theorem within_beginRpc (m : Method) (classId methodId : UInt16) : Prog.Within SameClosing (beginRpc Γ m classId methodId) := by
  refine Prog.Within.get.bind fun s => Prog.Within.ite ?_ (Prog.Within.throw _)
  refine (Prog.Within.lift _).bind fun _ => Prog.Within.bind (fun _ => ⟨rfl, rfl, rfl⟩) fun _ => ?_
  exact (within_setContinuation _).bind fun _ => (within_beginWriteMethod Γ m).bind fun _ => Prog.Within.pure _

/-! ## The destructor -/

/-- Nobody who has a future of the channel waits any longer: its promises are satisfied, or broken. -/
structure Destroyed (s t : ChannelImpl) : Prop where
  opened : t.satisfied .channelOpened = true
  closed : t.satisfied .channelClosed = true
  rpc : ∀ i, s.continuation.awaits = some (.rpc i) → i < s.rpcPromises.length → t.satisfied (.rpc i) = true

/-- `close_` replaces the handler, unless its method cannot be made. -/
theorem leaves_close (replyCode : UInt16) (replyText : List UInt8) (classId methodId : UInt16) (s : ChannelImpl) :
    (close_ Γ replyCode replyText classId methodId s).Leaves fun t =>
      t = s ∨ ∃ posted, t = { s.dropContinuation with continuation := .closedHandler, posted := posted } := by
  unfold close_ setContinuation beginWriteMethod
  rcases Γ.createClose replyCode replyText classId methodId with e | close
  · simp
  · rcases hframe : createFromMethod Γ.memory s.dropContinuation.channelId close with e | fr
    · simp only [Prog.bind_apply, Prog.lift_ok, Prog.modify_apply, Prog.get_apply, hframe, Prog.lift_error]
      exact Or.inr ⟨_, rfl⟩
    · simp only [Prog.bind_apply, Prog.lift_ok, Prog.modify_apply, Prog.get_apply, hframe]
      exact Or.inr ⟨_, rfl⟩

/-- The destructors of the members, after `close_`. -/
theorem destroyed_destroyMembers {s t : ChannelImpl}
    (h : t = s ∨ ∃ posted, t = { s.dropContinuation with continuation := .closedHandler, posted := posted }) :
    Destroyed s t.destroyMembers := by
  refine ⟨Promise.isSatisfied_destroy _ _, Promise.isSatisfied_destroy _ _, fun i hi hlt => ?_⟩
  rcases h with rfl | ⟨posted, rfl⟩
  · exact satisfied_dropContinuation_self hi hlt
  · exact satisfied_dropContinuation_self hi hlt

/-- Whether its body returns or throws, the destructor leaves nobody waiting. -/
theorem destroyed_destroy : Prog.Within Destroyed (destroy Γ) := by
  intro s
  have hclose := leaves_close Γ 200 [] 0 0 s
  unfold destroy
  simp only [Prog.bind_apply, Prog.tryCatch_apply]
  cases h : close_ Γ 200 [] 0 0 s with
  | ok a t =>
    rw [h] at hclose
    exact destroyed_destroyMembers hclose
  | throws e t =>
    rw [h] at hclose
    exact destroyed_destroyMembers hclose
  | undefined => trivial

/-! ## `close_async` -/

/-- `close_async`, the first time. -/
theorem closeAsync_of_unset {s : ChannelImpl} (h : s.channelClosedPromise = .unset) :
    closeAsync s = .ok () { s with channelClosedPromise := .value 1 } := by
  refine Prog.update_of_ok ?_
  rw [h]
  rfl

/-- `close_async`, once more. -/
theorem closeAsync_of_satisfied {s : ChannelImpl} (h : s.channelClosedPromise.isSatisfied = true) :
    closeAsync s = .throws .promiseAlreadySatisfied s := by
  refine Prog.update_of_error ?_
  rw [(once_setValue 1).again _ h]
  rfl

/-! ## Frames are always answered -/

theorem defined_beginWriteMethod (m : Method) : Prog.Defined (beginWriteMethod Γ m) :=
  Prog.Defined.get.bind fun _ => (Prog.Defined.lift _).bind fun _ => Prog.Defined.modify _

theorem defined_awaitMethod (classId methodId : UInt16) (setValue : Method → ChannelImpl → Except Exception ChannelImpl)
    (setException : ChannelImpl → Except Exception ChannelImpl) (fr : Frame) :
    Prog.Defined (awaitMethod Γ classId methodId setValue setException fr) :=
  Prog.Defined.tryCatch
    (Prog.Defined.ite (Prog.Defined.throw _)
      ((Prog.Defined.lift _).bind fun _ => Prog.Defined.ite (Prog.Defined.update _) (Prog.Defined.throw _)))
    fun _ => (Prog.Defined.update _).bind fun _ => Prog.Defined.throw _

/-- Whatever the state of the channel and the frame, `process_frame` returns or throws. -/
theorem defined_processFrame (fr : Frame) : Prog.Defined (processFrame Γ fr) := by
  refine Prog.Defined.get.bind fun s => Prog.Defined.ite (Prog.Defined.throw _) ?_
  refine Prog.Defined.tryCatch (Prog.Defined.get.bind fun s => ?_) fun e => ?_
  · cases s.continuation with
    | processOpen => exact defined_awaitMethod Γ _ _ _ _ fr
    | rpcHandler classId methodId promise => exact defined_awaitMethod Γ _ _ _ _ fr
    | closedHandler => exact Prog.Defined.pure ()
  · cases e with
    | channelException replyCode replyText classId methodId =>
      exact (Prog.Defined.lift _).bind fun _ => (Prog.Defined.modify _).bind fun _ => defined_beginWriteMethod Γ _
    | _ => exact Prog.Defined.throw _

end ChannelImpl

end Amqpp
