import Amqpp.Codegen.ReadErrors

/-!
# What the connection and its channels are built on

The generated code (`methods.gen.h`) with the classes and methods that the channel and the connection manager name, and the
memory that fresh buffers are made of.
-/

namespace Amqpp

/-- The generated code and the contents of fresh memory. The classes and methods that the code names are those of the
specification; `channel.close` has the four arguments that `close_` sets, and `channel.close_ok` has none. No run of bits is
longer than 32, so no shift of the generated code is undefined (`getBit_eq_none`). -/
structure Env where
  constants : Constants
  spec : Spec
  memory : Nat → UInt8
  bitRuns : ∀ c ∈ spec.classes, ∀ m ∈ c.methods, BitRunsLe 32 m.arguments
  /-- `methods::channel` and its methods. -/
  channel : ClassDesc
  channelOpen : MethodDesc
  channelOpenOk : MethodDesc
  channelClose : MethodDesc
  channelCloseOk : MethodDesc
  /-- `methods::exchange` and its methods. -/
  exchange : ClassDesc
  exchangeDeclare : MethodDesc
  exchangeDeclareOk : MethodDesc
  channel_mem : channel ∈ spec.classes
  channelMethods_mem : [channelOpen, channelOpenOk, channelClose, channelCloseOk] ⊆ channel.methods
  exchange_mem : exchange ∈ spec.classes
  exchangeMethods_mem : [exchangeDeclare, exchangeDeclareOk] ⊆ exchange.methods
  channelClose_arguments : channelClose.arguments = [.short, .shortstr, .short, .short]
  channelCloseOk_arguments : channelCloseOk.arguments = []

namespace Env

variable (Γ : Env)

/-- `methods::channel::close::create()` with its setters called. Only the text is checked. -/
def createClose (replyCode : UInt16) (replyText : List UInt8) (classId methodId : UInt16) : Except Exception Method := do
  validateShortstring replyText
  return { Method.create Γ.channel Γ.channelClose with
    values := [.short replyCode, .shortstr replyText, .short classId, .short methodId] }

/-- The frame `create_from_method` makes of a `channel.close_ok`: it is filled by the two ids. -/
def closeOkFrame (channel : UInt16) : Frame :=
  ⟨.method, channel, writeUint16 Γ.channel.index ++ writeUint16 Γ.channelCloseOk.index⟩

theorem createFromMethod_closeOk (channel : UInt16) :
    createFromMethod Γ.memory channel (Method.create Γ.channel Γ.channelCloseOk) = .ok (Γ.closeOkFrame channel) := by
  have hargs : (Method.create Γ.channel Γ.channelCloseOk).desc.arguments = [] := Γ.channelCloseOk_arguments
  have hwrite : (Method.create Γ.channel Γ.channelCloseOk).write =
      .ok (writeUint16 Γ.channel.index ++ writeUint16 Γ.channelCloseOk.index) := by
    unfold Method.write
    rw [hargs]
    exact congrArg (fun l => Except.ok (writeUint16 _ ++ l)) (List.append_nil _)
  have hsize : (Method.create Γ.channel Γ.channelCloseOk).getSerializedSize = 4 := by
    unfold Method.getSerializedSize
    rw [hargs]
    rfl
  have hlen : (writeUint16 Γ.channel.index ++ writeUint16 Γ.channelCloseOk.index).length = 4 := by
    rw [List.length_append, length_writeUint16, length_writeUint16]
  unfold createFromMethod
  simp only [hwrite, hsize, bind, Except.bind, hlen]
  exact congrArg (fun l => Except.ok (Frame.mk .method channel l)) (List.append_nil _)

end Env

/-! ## An environment for examples -/

namespace EnvSample

/-- `channel.open`. -/
def channelOpen : MethodDesc := ⟨10, [.shortstr], [.shortstr []], rfl⟩

/-- `channel.open_ok`. -/
def channelOpenOk : MethodDesc := ⟨11, [.longstr], [.longstr []], rfl⟩

/-- `channel.close`. -/
def channelClose : MethodDesc :=
  ⟨40, [.short, .shortstr, .short, .short], [.short 0, .shortstr [], .short 0, .short 0], rfl⟩

/-- `channel.close_ok`. -/
def channelCloseOk : MethodDesc := ⟨41, [], [], rfl⟩

/-- Class channel. -/
def channel : ClassDesc := ⟨20, [channelOpen, channelOpenOk, channelClose, channelCloseOk]⟩

/-- `exchange.declare`. -/
def exchangeDeclare : MethodDesc :=
  ⟨10, [.short, .shortstr, .shortstr, .bit, .bit, .bit, .bit, .bit, .table],
    [.short 0, .shortstr [], .shortstr [], .bit false, .bit false, .bit false, .bit false, .bit false, .table []], rfl⟩

/-- `exchange.declare_ok`. -/
def exchangeDeclareOk : MethodDesc := ⟨11, [], [], rfl⟩

/-- Class exchange. -/
def exchange : ClassDesc := ⟨40, [exchangeDeclare, exchangeDeclareOk]⟩

/-- A specification with the two classes. -/
def spec : Spec where
  classes := [channel, exchange]
  classes_nodup := by decide
  methods_nodup := List.forall_mem_cons.mpr ⟨by decide, List.forall_mem_singleton.mpr (by decide)⟩

/-- No method of the specification has more than 32 arguments. -/
theorem bitRuns_of_lengths {Γ : Spec} (h : ∀ c ∈ Γ.classes, ∀ n ∈ c.methods.map fun m => m.arguments.length, n ≤ 32) :
    ∀ c ∈ Γ.classes, ∀ m ∈ c.methods, BitRunsLe 32 m.arguments :=
  fun c hc _ hm => bitRunsLe_of_length (h c hc _ (List.mem_map_of_mem hm))

/-- A frame with `channel.open_ok`, on channel 1. -/
def openOkFrame : Frame := ⟨.method, 1, [0, 20, 0, 11, 0, 0, 0, 0]⟩

/-- A frame with `channel.close`, on a channel. -/
def closeFrame (channel : UInt16) : Frame := ⟨.method, channel, [0, 20, 0, 40, 0, 200, 0, 0, 0, 0, 0]⟩

end EnvSample

/-- The classes channel and exchange with their ids and arguments, and memory full of zeros. -/
def Env.sample : Env where
  constants := .sample
  spec := EnvSample.spec
  memory := fun _ => 0
  bitRuns := EnvSample.bitRuns_of_lengths (List.forall_mem_cons.mpr ⟨by decide, List.forall_mem_singleton.mpr (by decide)⟩)
  channel := EnvSample.channel
  channelOpen := EnvSample.channelOpen
  channelOpenOk := EnvSample.channelOpenOk
  channelClose := EnvSample.channelClose
  channelCloseOk := EnvSample.channelCloseOk
  exchange := EnvSample.exchange
  exchangeDeclare := EnvSample.exchangeDeclare
  exchangeDeclareOk := EnvSample.exchangeDeclareOk
  channel_mem := List.mem_cons_self
  channelMethods_mem := fun _ h => h
  exchange_mem := List.mem_cons_of_mem _ List.mem_cons_self
  exchangeMethods_mem := fun _ h => h
  channelClose_arguments := rfl
  channelCloseOk_arguments := rfl

end Amqpp
