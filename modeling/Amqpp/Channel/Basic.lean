import Amqpp.Codegen.Env
import Amqpp.Lib.Prog
import Amqpp.Lib.Promise

/-!
# Channels

`channel_impl`. The io_service thread runs `process_frame` and `close_async`, user threads run `begin_rpc` and wait on
futures. A program here is one call: it reads and writes the members, and ends with a value or an exception. Frames that a
channel hands to `io_service::post` are gathered in `posted`.
-/

namespace Amqpp

/-- The promises of a channel, by name. -/
inductive PromiseId where
  /-- `m_channel_opened_promise`. -/
  | channelOpened
  /-- `m_channel_closed_promise`. -/
  | channelClosed
  /-- The promise that the `i`-th `begin_rpc` to install a handler made. -/
  | rpc (i : Nat)
  deriving DecidableEq, Repr

/-- What `m_continuation` is bound to. -/
inductive Continuation where
  | processOpen
  /-- `rpc_handler<ResponseMethodT>`, for the ids of the response and the promise it was bound with. -/
  | rpcHandler (classId methodId : UInt16) (promise : Nat)
  | closedHandler
  deriving DecidableEq, Repr

/-- `channel_impl`. -/
structure ChannelImpl where
  channelId : UInt16
  continuation : Continuation
  channelOpenedPromise : Promise Exception Bool
  channelClosedPromise : Promise Exception Nat
  channelClosedFuture : Future PromiseId
  rpcPromises : List (Promise Exception Method)
  posted : List Frame

namespace ChannelImpl

/-- The constructor. It leaves `m_channel_closed_future` default constructed. -/
def create (channelId : UInt16) : ChannelImpl where
  channelId := channelId
  continuation := .processOpen
  channelOpenedPromise := .unset
  channelClosedPromise := .unset
  channelClosedFuture := ⟨none⟩
  rpcPromises := []
  posted := []

/-- Whether a promise is satisfied. -/
def satisfied (s : ChannelImpl) : PromiseId → Bool
  | .channelOpened => s.channelOpenedPromise.isSatisfied
  | .channelClosed => s.channelClosedPromise.isSatisfied
  | .rpc i => s.rpcPromises[i]?.any Promise.isSatisfied

/-! ## Satisfying the promises -/

/-- A call on `m_channel_opened_promise`. -/
def updateOpened (set : Promise Exception Bool → Except Exception (Promise Exception Bool)) (s : ChannelImpl) :
    Except Exception ChannelImpl := do
  return { s with channelOpenedPromise := ← set s.channelOpenedPromise }

/-- A call on the promise of an RPC. -/
def updateRpc (i : Nat) (set : Promise Exception Method → Except Exception (Promise Exception Method)) (s : ChannelImpl) :
    Except Exception ChannelImpl :=
  match s.rpcPromises[i]? with
  | some p => do return { s with rpcPromises := s.rpcPromises.set i (← set p) }
  | none => .error .stuck

/-- `set_value`. -/
def setValue {α : Type} (v : α) : Promise Exception α → Except Exception (Promise Exception α) :=
  Promise.setValue .promiseAlreadySatisfied v

/-- `set_exception(boost::copy_exception(e))`, where `e` is caught as `std::exception&`. -/
def setException {α : Type} : Promise Exception α → Except Exception (Promise Exception α) :=
  Promise.setException .promiseAlreadySatisfied .sliced

variable (Γ : Env)

/-- `connection_impl::begin_write_method`, for this channel. -/
def beginWriteMethod (method : Method) : Prog Exception ChannelImpl Unit := do
  let fr ← Prog.lift (createFromMethod Γ.memory (← get).channelId method)
  modify fun s => { s with posted := s.posted ++ [fr] }

/-- The destructor of what `m_continuation` is bound to. A handler of an RPC has the last pointer to its promise. -/
def dropContinuation (s : ChannelImpl) : ChannelImpl :=
  { s with rpcPromises :=
      match s.continuation with
      | .rpcHandler _ _ promise => s.rpcPromises.modify promise (Promise.destroy .brokenPromise)
      | .processOpen | .closedHandler => s.rpcPromises }

@[simp] theorem channelId_dropContinuation (s : ChannelImpl) : s.dropContinuation.channelId = s.channelId := rfl

@[simp] theorem posted_dropContinuation (s : ChannelImpl) : s.dropContinuation.posted = s.posted := rfl

/-- The assignment to `m_continuation`. -/
def setContinuation (continuation : Continuation) : Prog Exception ChannelImpl Unit :=
  modify fun s => { s.dropContinuation with continuation := continuation }

/-! ## The requests of user threads -/

/-- `boost::make_shared<rpc_promise_t>`: a new promise, and its number. -/
def makeRpcPromise : Prog Exception ChannelImpl Nat := fun s =>
  .ok s.rpcPromises.length { s with rpcPromises := s.rpcPromises ++ [.unset] }

/-- `begin_rpc<SentMethodT, ResponseMethodT>`, for the ids of the response. -/
def beginRpc (method : Method) (classId methodId : UInt16) : Prog Exception ChannelImpl (Future PromiseId) := do
  let s ← get
  if !s.channelClosedFuture.isReady s.satisfied then
    -- The frame made here is not used.
    let _ ← Prog.lift (createFromMethod Γ.memory s.channelId method)
    let rpcPromise ← makeRpcPromise
    setContinuation (.rpcHandler classId methodId rpcPromise)
    beginWriteMethod Γ method
    return ⟨some (.rpc rpcPromise)⟩
  else throw (.runtimeError "Channel closed")

/-- `declare_exchange` up to its wait. -/
def declareExchange : Prog Exception ChannelImpl (Future PromiseId) :=
  beginRpc Γ (Method.create Γ.exchange Γ.exchangeDeclare) Γ.exchange.index Γ.exchangeDeclareOk.index

/-- `get` on the future of an RPC that is ready. -/
def rpcGet (s : ChannelImpl) (i : Nat) : Except Exception Method :=
  match s.rpcPromises[i]? with
  | some (.value m) => .ok m
  | some (.exception e) => .error e
  | _ => .error .stuck

/-- `declare_exchange` from its wait on, for the `i`-th RPC: `none` while `wait_for_any` waits. -/
def declareExchangeWait (s : ChannelImpl) (i : Nat) : Option (Except Exception Unit) :=
  (Future.waitForAny s.satisfied [⟨some (.rpc i)⟩, s.channelClosedFuture]).map fun future =>
    if 0 = future then (s.rpcGet i).map fun _ => () else .error (.runtimeError "Channel is closed")

/-! ## Frames -/

/-- The body that `process_open` and `rpc_handler` share: a method frame with the ids gives the promise its value; anything
else is thrown on, once the promise has been given an exception. A method that was read with these ids is of the class that
`method_cast` asks for. -/
def awaitMethod (classId methodId : UInt16) (setValue : Method → ChannelImpl → Except Exception ChannelImpl)
    (setException : ChannelImpl → Except Exception ChannelImpl) (fr : Frame) : Prog Exception ChannelImpl Unit :=
  tryCatch
    (do
      if fr.type ≠ .method then throw .connectionException
      else
        let method ← Prog.lift (Γ.spec.readFrame fr)
        if method.classId = classId ∧ method.desc.index = methodId then Prog.update (setValue method)
        else throw .connectionException)
    fun e => do
      Prog.update setException
      throw e

/-- `process_open`. -/
def processOpen : Frame → Prog Exception ChannelImpl Unit :=
  awaitMethod Γ Γ.channel.index Γ.channelOpenOk.index (fun _ => updateOpened (setValue true)) (updateOpened setException)

/-- `rpc_handler`. -/
def rpcHandler (classId methodId : UInt16) (promise : Nat) : Frame → Prog Exception ChannelImpl Unit :=
  awaitMethod Γ classId methodId (fun method => updateRpc promise (setValue method)) (updateRpc promise setException)

/-- `closed_handler`. -/
def closedHandler (_fr : Frame) : Prog Exception ChannelImpl Unit := pure ()

/-- `m_continuation(frame)`. -/
def runContinuation (fr : Frame) : Prog Exception ChannelImpl Unit := do
  match (← get).continuation with
  | .processOpen => processOpen Γ fr
  | .rpcHandler classId methodId promise => rpcHandler Γ classId methodId promise fr
  | .closedHandler => closedHandler fr

/-- `close_`. -/
def close_ (replyCode : UInt16) (replyText : List UInt8) (classId methodId : UInt16) : Prog Exception ChannelImpl Unit := do
  let close ← Prog.lift (Γ.createClose replyCode replyText classId methodId)
  setContinuation .closedHandler
  beginWriteMethod Γ close

/-- `process_frame`. -/
def processFrame (fr : Frame) : Prog Exception ChannelImpl Unit := do
  if fr.channel ≠ (← get).channelId then throw .stuck
  else
    tryCatch (runContinuation Γ fr) fun
      | .channelException replyCode replyText classId methodId => close_ Γ replyCode replyText classId methodId
      | e => throw e

/-- `close_async`. -/
def closeAsync : Prog Exception ChannelImpl Unit :=
  Prog.update fun s => do return { s with channelClosedPromise := ← setValue 1 s.channelClosedPromise }

/-- The destructors of the members. -/
def destroyMembers (s : ChannelImpl) : ChannelImpl :=
  { s.dropContinuation with
    channelOpenedPromise := s.channelOpenedPromise.destroy .brokenPromise
    channelClosedPromise := s.channelClosedPromise.destroy .brokenPromise }

@[simp] theorem posted_destroyMembers (s : ChannelImpl) : s.destroyMembers.posted = s.posted := rfl

/-- The destructor: its body, and then the members, also when the body throws. -/
def destroy : Prog Exception ChannelImpl Unit := do
  tryCatch (close_ Γ 200 [] 0 0) fun e => do
    modify destroyMembers
    throw e
  modify destroyMembers

end ChannelImpl

end Amqpp
