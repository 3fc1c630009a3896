/-!
# Exceptions

What the library throws: the exceptions of exception.h with their fields, the standard ones it builds with their texts, and
those of Boost.Thread and Boost.Asio that its code can meet.
-/

namespace Amqpp

/-- A thrown exception. Every one of them derives from `std::exception`. -/
inductive Exception where
  | runtimeError (what : String)
  | logicError (what : String)
  /-- `amqpp::channel_exception`, a `std::runtime_error`. -/
  | channelException (replyCode : UInt16) (replyText : List UInt8) (classId methodId : UInt16)
  /-- `amqpp::connection_exception`, a `std::runtime_error`. -/
  | connectionException
  /-- A bare `std::exception`: what `boost::copy_exception` keeps of one caught as `std::exception&`. -/
  | sliced
  /-- `boost::promise_already_satisfied`, a `std::logic_error`. -/
  | promiseAlreadySatisfied
  /-- `boost::broken_promise`, a `std::logic_error`: what a future gets whose promise is destroyed before it is satisfied. -/
  | brokenPromise
  /-- `boost::system::system_error` with `asio::error::eof`: the peer's bytes end inside a synchronous read. -/
  | endOfFile
  /-- Not an exception of the code: where a reader that looks at its accesses (`checkedPayload`) finds one that is undefined. -/
  | undefined
  /-- Not an exception of the code: the model has nothing to say (a failed assertion, undefined behaviour, text that does
  not compile, or a loop that took more passes than it was given). -/
  | stuck
  deriving DecidableEq, Repr

/-- `catch (std::runtime_error&)` takes the exceptions built on `std::runtime_error`. -/
def Exception.isRuntimeError : Exception → Bool
  | .runtimeError _ | .channelException .. | .connectionException | .endOfFile => true
  | .logicError _ | .sliced | .promiseAlreadySatisfied | .brokenPromise | .undefined | .stuck => false

/-- What `boost::copy_exception` keeps of an exception caught as `std::runtime_error&`: the text it has as a
`std::runtime_error`. -/
def Exception.copyRuntimeError : Exception → Exception
  | .channelException .. => .runtimeError "A channel exception occurred"
  | .connectionException => .runtimeError "A connection exception occurred"
  | e => e

end Amqpp
