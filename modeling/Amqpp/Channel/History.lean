import Amqpp.Channel.Run
import Amqpp.Lib.Exchange

/-!
# What a frame answers

A channel knows its last handler only. What it looks for in a frame is a method with the ids of the response; any other
frame gives the promise an exception. A new handler replaces the last one, which takes its promise with it. The history of a
channel, as far as its promises go, are its requests and the frames.
-/

namespace Amqpp

/-- The response that a handler takes from a frame, if it is one. -/
def Env.reply (Γ : Env) (classId methodId : UInt16) (fr : Frame) : Option Method :=
  if fr.type = .method then
    match Γ.spec.readFrame fr with
    | .ok method => if method.classId = classId ∧ method.desc.index = methodId then some method else none
    | .error _ => none
  else none

/-- What is in the promise of a request, by the ids of its response and what became of it. The promise of a request that was
overtaken is gone. -/
def Env.rpcPromise (Γ : Env) : (UInt16 × UInt16) × Fate Frame → Promise Exception Method
  | (_, .waiting) => .unset
  | ((classId, methodId), .answered fr) =>
    match Γ.reply classId methodId fr with
    | some method => .value method
    | none => .exception .sliced
  | (_, .overtaken) => .exception .brokenPromise

/-- What whoever waits for the response of a request gets: nothing, as long as neither a frame nor another request came. -/
def Env.rpcOutcome (Γ : Env) : (UInt16 × UInt16) × Fate Frame → Option (Except Exception Unit)
  | (_, .waiting) => none
  | ((classId, methodId), .answered fr) => some (if (Γ.reply classId methodId fr).isSome then .ok () else .error .sliced)
  | (_, .overtaken) => some (.error .brokenPromise)

/-- What is in the promise of the opening, by the frame that came for it. -/
def Env.openedPromise (Γ : Env) : Option Frame → Promise Exception Bool
  | none => .unset
  | some fr => if (Γ.reply Γ.channel.index Γ.channelOpenOk.index fr).isSome then .value true else .exception .sliced

/-- What a call means to the promises: a request that installs its handler asks for a response, and a frame is one. -/
def ChannelEvent.signal (Γ : Env) (channelId : UInt16) : ChannelEvent → Option (Signal (UInt16 × UInt16) Frame)
  | processFrame fr => some (.answer fr)
  | beginRpc method classId methodId =>
    (createFromMethod Γ.memory channelId method).toOption.map fun _ => .ask (classId, methodId)
  | closeAsync => none

namespace ChannelImpl

variable {Γ : Env}

/-- The two ways to settle the promise of a handler. Which one is taken says the frame. -/
theorem awaitMethod_ends {classId methodId : UInt16} {setValue : Method → ChannelImpl → Except Exception ChannelImpl}
    {setException : ChannelImpl → Except Exception ChannelImpl} {P : ChannelImpl → Prop} {s : ChannelImpl} {fr : Frame}
    (hv : ∀ m, Γ.reply classId methodId fr = some m → ∃ t, setValue m s = .ok t ∧ P t)
    (he : Γ.reply classId methodId fr = none → ∃ t, setException s = .ok t ∧ P t) :
    (awaitMethod Γ classId methodId setValue setException fr s).Ends P := by
  unfold Env.reply at hv he
  unfold awaitMethod
  by_cases htype : fr.type = .method
  · rcases hread : Γ.spec.readFrame fr with e | m
    · obtain ⟨u, hu, hP⟩ := he (by simp [hread])
      simpa [htype, Prog.update_of_ok hu] using hP
    · by_cases hids : m.classId = classId ∧ m.desc.index = methodId
      · obtain ⟨t, ht, hP⟩ := hv m (by simp [htype, hread, hids])
        simpa [htype, hids, Prog.update_of_ok ht] using hP
      · obtain ⟨u, hu, hP⟩ := he (by simp [hread, hids])
        simpa [htype, hids, Prog.update_of_ok hu] using hP
  · obtain ⟨u, hu, hP⟩ := he (by simp [htype])
    simpa [htype, Prog.update_of_ok hu] using hP

/-- What the handler leaves is what `process_frame` leaves, as long as its promise is not satisfied. -/
theorem processFrame_ends {s : ChannelImpl} {p : PromiseId} {fr : Frame} {P : ChannelImpl → Prop} (hch : fr.channel = s.channelId)
    (ha : s.continuation.awaits = some p) (hunset : s.satisfied p = false) (hi : ∀ i, p = .rpc i → i < s.rpcPromises.length)
    (h : (runContinuation Γ fr s).Ends P) : (processFrame Γ fr s).Ends P := by
  obtain ⟨t, -, hok | ⟨e, he, hthrows⟩⟩ := runContinuation_of_unset Γ ha hunset hi fr
  · rw [hok] at h
    rw [processFrame_of_ok Γ hch hok]
    exact h
  · rw [hthrows] at h
    rw [processFrame_of_throws Γ hch he hthrows]
    exact h

/-- A frame while the channel waits for its opening. -/
theorem runContinuation_processOpen {s : ChannelImpl} (hc : s.continuation = .processOpen) (hunset : s.channelOpenedPromise = .unset)
    (fr : Frame) : (runContinuation Γ fr s).Ends (· = { s with channelOpenedPromise := Γ.openedPromise (some fr) }) := by
  unfold runContinuation
  simp only [Prog.bind_apply, Prog.get_apply, hc]
  refine awaitMethod_ends (fun m hm => ⟨_, ?_, rfl⟩) (fun hnone => ⟨_, ?_, rfl⟩)
  · simp [updateOpened, hc, hunset, setValue, Promise.setValue, Env.openedPromise, hm, bind, Except.bind, pure, Except.pure]
  · simp [updateOpened, hc, hunset, setException, Promise.setException, Env.openedPromise, hnone, bind, Except.bind, pure, Except.pure]

/-- A frame while a request waits for its response. -/
theorem runContinuation_rpcHandler {s : ChannelImpl} {classId methodId : UInt16} {i : Nat}
    (hc : s.continuation = .rpcHandler classId methodId i) (hunset : s.rpcPromises[i]? = some .unset) (fr : Frame) :
    (runContinuation Γ fr s).Ends
      (· = { s with rpcPromises := s.rpcPromises.set i (Γ.rpcPromise ((classId, methodId), .answered fr)) }) := by
  unfold runContinuation
  simp only [Prog.bind_apply, Prog.get_apply, hc]
  refine awaitMethod_ends (fun m hm => ⟨_, ?_, rfl⟩) (fun hnone => ⟨_, ?_, rfl⟩)
  · simp [updateRpc, hc, hunset, setValue, Promise.setValue, Env.rpcPromise, hm, bind, Except.bind, pure, Except.pure]
  · simp [updateRpc, hc, hunset, setException, Promise.setException, Env.rpcPromise, hnone, bind, Except.bind, pure, Except.pure]

end ChannelImpl

end Amqpp
