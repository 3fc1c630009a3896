import Amqpp.Codegen.Frames
import Amqpp.Connection.Handshake

/-!
# The methods of the handshake

What the broker says in a handshake that succeeds, what the client answers, and that the client's frames are read as these
answers.
-/

namespace Amqpp

namespace ConnectionImpl

/-- The client properties of every `start_ok`. -/
def properties : TableMap := clientProperties.foldl (fun t p => t.insert (.mk p.1 (.longstring p.2))) []

/-- What the broker says: a `start` of version 0-9, a `tune` and an `open_ok`, each the method that a frame is read as. -/
structure BrokerScript (Γ : ConnectionEnv) where
  serverProperties : TableMap
  mechanisms : List UInt8
  locales : List UInt8
  channelMax : UInt16
  frameMax : UInt32
  heartbeat : UInt16
  openOk : Method
  startFrame : Frame
  tuneFrame : Frame
  openOkFrame : Frame
  start_says : Says Γ startFrame Γ.start
    ⟨Γ.connection.index, Γ.start, [.octet 0, .octet 9, .table serverProperties, .longstr mechanisms, .longstr locales]⟩
  tune_says : Says Γ tuneFrame Γ.tune ⟨Γ.connection.index, Γ.tune, [.short channelMax, .long frameMax, .short heartbeat]⟩
  openOk_says : Says Γ openOkFrame Γ.openOk openOk

/-- The bytes of the three frames. -/
def BrokerScript.bytes {Γ : ConnectionEnv} (x : BrokerScript Γ) : List UInt8 :=
  x.startFrame.sequence Γ.constants ++ (x.tuneFrame.sequence Γ.constants ++ x.openOkFrame.sequence Γ.constants)

variable (Γ : ConnectionEnv)

/-- The `start_ok` for a user. -/
def startOkOf (username password : List UInt8) : Method :=
  ⟨Γ.connection.index, Γ.startOk, [.table properties, .shortstr Sasl.plainMechanism, .longstr ([0] ++ username ++ [0] ++ password),
    .shortstr (bytesOf "en_US")]⟩

/-- The `tune_ok` for three limits. -/
def tuneOkOf (channelMax : UInt16) (frameMax : UInt32) (heartbeat : UInt16) : Method :=
  ⟨Γ.connection.index, Γ.tuneOk, [.short channelMax, .long frameMax, .short heartbeat]⟩

/-- The `open` for a virtual host. -/
def openOf (vhost : List UInt8) : Method := ⟨Γ.connection.index, Γ.openMethod, [.shortstr vhost, .shortstr [], .bit false]⟩

variable {Γ}

/-! ## The methods that were read -/

/-- The members of a method of class connection that was read. -/
theorem Says.values {f : Frame} {d : MethodDesc} {m : Method} (h : Says Γ f d m)
    (hd : d ∈ [Γ.start, Γ.startOk, Γ.tune, Γ.tuneOk, Γ.openMethod, Γ.openOk]) :
    m = ⟨Γ.connection.index, d, m.values⟩ ∧ m.values.map Value.domain = d.arguments := by
  obtain ⟨hdesc, htyped⟩ := Spec.typed_of_readFrame h.read Γ.connection_mem (Γ.methods_mem hd) h.is
  obtain ⟨classId, desc, values⟩ := m
  obtain rfl : classId = Γ.connection.index := h.is.1
  obtain rfl : desc = d := hdesc
  exact ⟨rfl, htyped⟩

/-- A `start` that was read. -/
theorem Says.start {f : Frame} {m : Method} (h : Says Γ f Γ.start m) : ∃ major minor serverProperties mechanisms locales,
    m = ⟨Γ.connection.index, Γ.start,
      [.octet major, .octet minor, .table serverProperties, .longstr mechanisms, .longstr locales]⟩ := by
  obtain ⟨hm, htyped⟩ := h.values (by simp)
  rw [Γ.start_arguments] at htyped
  simp only [List.map_eq_cons_iff, List.map_eq_nil_iff, Value.domain_eq_octet, Value.domain_eq_table, Value.domain_eq_longstr] at htyped
  obtain ⟨-, -, hvalues, ⟨major, rfl⟩, -, -, rfl, ⟨minor, rfl⟩, -, -, rfl, ⟨t, rfl⟩, -, -, rfl, ⟨mechanisms, rfl⟩, -, -, rfl,
    ⟨locales, rfl⟩, rfl⟩ := htyped
  exact ⟨major, minor, t, mechanisms, locales, by rw [hm, hvalues]⟩

/-- A `tune` that was read. -/
theorem Says.tune {f : Frame} {m : Method} (h : Says Γ f Γ.tune m) : ∃ channelMax frameMax heartbeat,
    m = ⟨Γ.connection.index, Γ.tune, [.short channelMax, .long frameMax, .short heartbeat]⟩ := by
  obtain ⟨hm, htyped⟩ := h.values (by simp)
  rw [Γ.tune_arguments] at htyped
  simp only [List.map_eq_cons_iff, List.map_eq_nil_iff, Value.domain_eq_short, Value.domain_eq_long] at htyped
  obtain ⟨-, -, hvalues, ⟨channelMax, rfl⟩, -, -, rfl, ⟨frameMax, rfl⟩, -, -, rfl, ⟨heartbeat, rfl⟩, rfl⟩ := htyped
  exact ⟨channelMax, frameMax, heartbeat, by rw [hm, hvalues]⟩

/-! ## The methods that are made -/

/-- Inserting entries with valid keys into the first member. -/
theorem foldlM_insertEntry {ps : List (List UInt8 × List UInt8)} (hps : ∀ p ∈ ps, p.1.length ≤ 128) {m : Method} {t : TableMap}
    (h : m.values[0]? = some (.table t)) :
    ps.foldlM (fun m p => do m.insertEntry 0 (← stringEntry p.1 p.2)) m = Except.ok (ε := Exception)
      { m with values := m.values.set 0 (.table (ps.foldl (fun t p => t.insert (.mk p.1 (.longstring p.2))) t)) } := by
  induction ps generalizing m t with
  | nil =>
    obtain ⟨hlt, hget⟩ := List.getElem?_eq_some_iff.mp h
    simp [← hget, pure, Except.pure]
  | cons p ps ih =>
    obtain ⟨hp, hrest⟩ := List.forall_mem_cons.mp hps
    have hentry : stringEntry p.1 p.2 = .ok (.mk p.1 (.longstring p.2)) := by
      unfold stringEntry TableEntry.validateKeyName
      simp [Nat.not_lt.mpr hp]
    have hset : (m.values.set 0 (.table (t.insert (.mk p.1 (.longstring p.2)))))[0]? =
        some (.table (t.insert (.mk p.1 (.longstring p.2)))) := by
      obtain ⟨hlt, -⟩ := List.getElem?_eq_some_iff.mp h
      simp [hlt]
    have hrun := ih hrest (m := { m with values := m.values.set 0 (.table (t.insert (.mk p.1 (.longstring p.2)))) }) hset
    simp only [List.set_set] at hrun
    simp only [List.foldlM_cons, List.foldl_cons, hentry, Method.insertEntry, h]
    exact hrun

/-- The members of a fresh `start_ok`. -/
theorem startOk_initial (Γ : ConnectionEnv) : ∃ mechanism response locale,
    Γ.startOk.initial = [.table [], .shortstr mechanism, .longstr response, .shortstr locale] := by
  have htyped := Γ.startOk.typed
  have htable := Γ.startOk_properties
  rw [Γ.startOk_arguments] at htyped
  simp only [List.map_eq_cons_iff, List.map_eq_nil_iff, Value.domain_eq_table, Value.domain_eq_shortstr,
    Value.domain_eq_longstr] at htyped
  obtain ⟨-, -, hinitial, ⟨t, rfl⟩, -, -, rfl, ⟨mechanism, rfl⟩, -, -, rfl, ⟨response, rfl⟩, -, -, rfl, ⟨locale, rfl⟩, rfl⟩ := htyped
  rw [hinitial] at htable
  cases htable
  exact ⟨mechanism, response, locale, hinitial⟩

/-- The user and the mechanisms of the broker for which there is a `start_ok`. -/
structure Answers (B : Sasl.StringAlgo) (mechanisms username password : List UInt8) : Prop where
  plain : Split.Delimited B.isSpace Sasl.plainMechanism mechanisms
  username_ok : 0 ∉ username
  password_ok : 0 ∉ password
  length : username.length + password.length + 2 < 2 ^ 32

theorem validateLongstring_response (username password : List UInt8) :
    validateLongstring ([0] ++ username ++ [0] ++ password) = .ok () ↔ username.length + password.length + 2 < 2 ^ 32 := by
  unfold validateLongstring
  simp only [List.length_append, List.length_singleton]
  by_cases h : username.length + password.length + 2 < 2 ^ 32
  · rw [if_neg (by omega)]
    exact iff_of_true rfl h
  · rw [if_pos (by omega)]
    exact iff_of_false nofun h

theorem makeStartOk_eq_ok {B : Sasl.StringAlgo} {start m : Method} {mechanisms username password : List UInt8}
    (hstart : start.values[3]? = some (.longstr mechanisms)) :
    makeStartOk Γ B start username password = .ok m ↔
      Answers B mechanisms username password ∧ m = startOkOf Γ username password := by
  obtain ⟨mechanism, response, locale, hinitial⟩ := startOk_initial Γ
  have hinsert : insertProperties (.create Γ.connection Γ.startOk) =
      .ok ⟨Γ.connection.index, Γ.startOk, [.table properties, .shortstr mechanism, .longstr response, .shortstr locale]⟩ := by
    unfold insertProperties
    rw [foldlM_insertEntry (t := []) (by decide) (by rw [Method.create, hinitial]; rfl), Method.create]
    simp only [hinitial]
    rfl
  have hget : start.getLongstr 3 = .ok mechanisms := by rw [Method.getLongstr, hstart]
  have hplain : validateShortstring Sasl.plainMechanism = .ok () := rfl
  have hlocale : validateShortstring (bytesOf "en_US") = .ok () := rfl
  have hresponse : ∀ r, Sasl.response B mechanisms username password = .ok r ↔ _ := fun r => Sasl.response_eq_ok
  unfold makeStartOk
  simp only [hinsert, hget, Except.bind_eq_ok, Except.ok.injEq, exists_eq_left', Method.set_eq_ok, Value.validate]
  constructor
  · rintro ⟨chosen, hchosen, m₁, ⟨-, rfl⟩, r, hr, m₂, ⟨hlength, rfl⟩, -, rfl⟩
    obtain ⟨hdelimited, ⟨hu, hp⟩, rfl⟩ := (hresponse r).mp (Except.bind_eq_ok.mpr ⟨chosen, hchosen, hr⟩)
    rw [Sasl.selectSaslMechanism_eq] at hchosen
    split at hchosen
    · cases hchosen
      exact ⟨⟨hdelimited, hu, hp, (validateLongstring_response _ _).mp hlength⟩, rfl⟩
    · cases hchosen
  · rintro ⟨⟨hdelimited, hu, hp, hlength⟩, rfl⟩
    obtain ⟨chosen, hchosen, hr⟩ := Except.bind_eq_ok.mp ((hresponse _).mpr ⟨hdelimited, ⟨hu, hp⟩, rfl⟩)
    have hchoice := hchosen
    rw [Sasl.selectSaslMechanism_eq] at hchoice
    split at hchoice
    · cases hchoice
      exact ⟨_, hchosen, _, ⟨hplain, rfl⟩, _, hr, _, ⟨(validateLongstring_response _ _).mpr hlength, rfl⟩, hlocale, rfl⟩
    · cases hchoice

theorem makeTuneOk_eq {tune : Method} {channelMax heartbeat : UInt16} {frameMax : UInt32}
    (h : tune.values = [.short channelMax, .long frameMax, .short heartbeat]) :
    makeTuneOk Γ tune = .ok (tuneOkOf Γ channelMax frameMax heartbeat) := by
  have hlength : Γ.tuneOk.initial.length = 3 := by
    have htyped := congrArg List.length Γ.tuneOk.typed
    rw [Γ.tuneOk_arguments, List.length_map] at htyped
    exact htyped
  obtain ⟨a, b, c, hinitial⟩ := List.length_eq_three.mp hlength
  unfold makeTuneOk Method.set Method.getShort Method.getLong Method.create
  simp only [h, hinitial]
  rfl

theorem makeOpen_eq_ok {vhost : List UInt8} {m : Method} :
    makeOpen Γ vhost = .ok m ↔ validateShortstring vhost = .ok () ∧ m = openOf Γ vhost := by
  have hlength : Γ.openMethod.initial.length = 3 := by
    have htyped := congrArg List.length Γ.openMethod.typed
    rw [Γ.openMethod_arguments, List.length_map] at htyped
    exact htyped
  obtain ⟨a, b, c, hinitial⟩ := List.length_eq_three.mp hlength
  have hempty : validateShortstring [] = .ok () := rfl
  unfold makeOpen
  simp only [Except.bind_eq_ok, Method.set_eq_ok, Value.validate]
  constructor
  · rintro ⟨m₁, ⟨hvhost, rfl⟩, m₂, ⟨-, rfl⟩, -, rfl⟩
    refine ⟨hvhost, ?_⟩
    simp only [Method.create, hinitial]
    rfl
  · rintro ⟨hvhost, rfl⟩
    refine ⟨_, ⟨hvhost, rfl⟩, _, ⟨hempty, rfl⟩, trivial, ?_⟩
    simp only [Method.create, hinitial]
    rfl

/-! ## Their frames -/

/-- The frames of the client. -/
structure ClientFrames (Γ : ConnectionEnv) (username password vhost : List UInt8) (x : BrokerScript Γ) where
  startOk : Frame
  tuneOk : Frame
  openMethod : Frame
  startOk_made : createFromMethod Γ.memory 0 (startOkOf Γ username password) = .ok startOk
  tuneOk_made : createFromMethod Γ.memory 0 (tuneOkOf Γ x.channelMax x.frameMax x.heartbeat) = .ok tuneOk
  openMethod_made : createFromMethod Γ.memory 0 (openOf Γ vhost) = .ok openMethod

/-- The three frames in the order they are sent. -/
def ClientFrames.frames {username password vhost : List UInt8} {x : BrokerScript Γ} (y : ClientFrames Γ username password vhost x) :
    List Frame :=
  [y.startOk, y.tuneOk, y.openMethod]

/-- Strings inserted into a table of plain values. -/
theorem exists_table {ps : List (List UInt8 × List UInt8)} (hps : ∀ p ∈ ps, p.1.length ≤ 128) (T : Table)
    (hT : T.map.All FieldValue.isPlain) :
    ∃ T' : Table, T'.map = ps.foldl (fun t p => t.insert (.mk p.1 (.longstring p.2))) T.map ∧ T'.map.All FieldValue.isPlain := by
  induction ps generalizing T with
  | nil => exact ⟨T, rfl, hT⟩
  | cons p ps ih =>
    obtain ⟨hp, hrest⟩ := List.forall_mem_cons.mp hps
    refine ih hrest (T.insert ⟨.mk p.1 (.longstring p.2), hp, trivial⟩) fun e he => ?_
    rcases SortedMap.mem_of_mem_insertBy he with rfl | he
    · exact trivial
    · exact hT e he

/-- The members of a `start_ok` for a user whose response is not too long. -/
def startOkAssignment (Γ : ConnectionEnv) (username password : List UInt8) (h : username.length + password.length + 2 < 2 ^ 32) :
    Assignment Γ.startOk where
  values := (startOkOf Γ username password).values
  typed := Γ.startOk_arguments.symm
  accepted := by
    have hproperties : (Value.table properties).Accepted := by
      obtain ⟨T, hT, hplain⟩ := @exists_table clientProperties (by decide) .empty (fun e he => absurd he List.not_mem_nil)
      have hmap : T.map = properties := hT
      exact ⟨T, hmap, hmap ▸ hplain⟩
    exact List.forall_mem_cons.mpr ⟨hproperties, List.forall_mem_cons.mpr ⟨rfl, List.forall_mem_cons.mpr
      ⟨(validateLongstring_response username password).mpr h, List.forall_mem_singleton.mpr rfl⟩⟩⟩

/-- The members of a `tune_ok`. -/
def tuneOkAssignment (Γ : ConnectionEnv) (channelMax : UInt16) (frameMax : UInt32) (heartbeat : UInt16) : Assignment Γ.tuneOk where
  values := (tuneOkOf Γ channelMax frameMax heartbeat).values
  typed := Γ.tuneOk_arguments.symm
  accepted := List.forall_mem_cons.mpr ⟨rfl, List.forall_mem_cons.mpr ⟨rfl, List.forall_mem_singleton.mpr rfl⟩⟩

/-- The members of an `open` for a virtual host that its setter accepts. -/
def openAssignment (Γ : ConnectionEnv) (vhost : List UInt8) (h : validateShortstring vhost = .ok ()) : Assignment Γ.openMethod where
  values := (openOf Γ vhost).values
  typed := Γ.openMethod_arguments.symm
  accepted := List.forall_mem_cons.mpr ⟨h, List.forall_mem_cons.mpr ⟨rfl, List.forall_mem_singleton.mpr rfl⟩⟩

theorem encodedSize_startOk (Γ : ConnectionEnv) (username password : List UInt8) :
    (startOkOf Γ username password).encodedSize = username.length + password.length + 173 := by
  unfold Method.encodedSize startOkOf
  simp only [Γ.startOk_arguments]
  have hgen : genGetLengthFunction [.table, .shortstr, .longstr, .shortstr] = some [.table 0, .shortstr 1, .longstr 2, .shortstr 3] :=
    rfl
  have hkeys : keysSize properties = 47 := by decide
  have htotal : properties.total FieldValue.announced = 100 := by decide
  have hplain : Sasl.plainMechanism.length = 5 := rfl
  have hlocale : (bytesOf "en_US").length = 5 := rfl
  simp [hgen, countAll, SizeStmt.count, hkeys, htotal, hplain, hlocale]
  omega

theorem encodedSize_tuneOk (Γ : ConnectionEnv) (channelMax : UInt16) (frameMax : UInt32) (heartbeat : UInt16) :
    (tuneOkOf Γ channelMax frameMax heartbeat).encodedSize = 12 := by
  have hgen : genGetLengthFunction [.short, .long, .short] = some [.sizeof 2, .sizeof 4, .sizeof 2] := rfl
  unfold Method.encodedSize tuneOkOf
  simp [Γ.tuneOk_arguments, hgen, countAll, SizeStmt.count]

theorem encodedSize_open (Γ : ConnectionEnv) (vhost : List UInt8) : (openOf Γ vhost).encodedSize = vhost.length + 7 := by
  have hgen : genGetLengthFunction [.shortstr, .shortstr, .bit] = some [.shortstr 0, .shortstr 1, .sizeof 1] := rfl
  unfold Method.encodedSize openOf
  simp [Γ.openMethod_arguments, hgen, countAll, SizeStmt.count]
  omega

/-- What the peer makes of a frame: a method frame on channel 0 that is read as the method. -/
structure ReadAs (Γ : ConnectionEnv) (f : Frame) (m : Method) : Prop where
  type : f.type = .method
  channel : f.channel = 0
  length : f.payload.length < 2 ^ 32
  read : Γ.spec.readFrame f = .ok m

/-- A `start_ok` that was put into a frame is short enough for one. -/
theorem length_of_startOk {username password : List UInt8} (h : username.length + password.length + 2 < 2 ^ 32) {f : Frame}
    (hmade : createFromMethod Γ.memory 0 (startOkOf Γ username password) = .ok f) :
    username.length + password.length + 173 < 2 ^ 32 := by
  have hruns : BitRunsLe 32 Γ.startOk.arguments := bitRunsLe_of_length (by rw [Γ.startOk_arguments]; decide)
  obtain ⟨bs, hwrite, hfits⟩ := Except.bind_eq_ok.mp hmade
  have hlength := CodecAux.length_of_write (c := Γ.connection) (x := startOkAssignment Γ username password h) hruns hwrite
  have hsize : bs.length = username.length + password.length + 173 := hlength.trans (encodedSize_startOk Γ username password)
  split at hfits
  · have hlt := (startOkOf Γ username password).getSerializedSize.toNat_lt
    omega
  · cases hfits

theorem exists_startOk (Γ : ConnectionEnv) {username password : List UInt8} (h : username.length + password.length + 173 < 2 ^ 32) :
    ∃ f, createFromMethod Γ.memory 0 (startOkOf Γ username password) = .ok f ∧ ReadAs Γ f (startOkOf Γ username password) := by
  have hsize := encodedSize_startOk Γ username password
  have hruns : BitRunsLe 32 Γ.startOk.arguments := bitRunsLe_of_length (by rw [Γ.startOk_arguments]; decide)
  obtain ⟨f, hmade, htype, hchannel, hlength, hread⟩ := exists_frame Γ.connection_mem (Γ.methods_mem (by simp)) hruns
    (startOkAssignment Γ username password (by omega)) (hsize ▸ h) Γ.memory 0
  exact ⟨f, hmade, htype, hchannel, by rw [hlength]; exact hsize ▸ h, hread⟩

theorem exists_tuneOk (Γ : ConnectionEnv) (channelMax : UInt16) (frameMax : UInt32) (heartbeat : UInt16) :
    ∃ f, createFromMethod Γ.memory 0 (tuneOkOf Γ channelMax frameMax heartbeat) = .ok f ∧
      ReadAs Γ f (tuneOkOf Γ channelMax frameMax heartbeat) := by
  have hsize : (tuneOkOf Γ channelMax frameMax heartbeat).encodedSize < 2 ^ 32 := by
    rw [encodedSize_tuneOk]
    decide
  have hruns : BitRunsLe 32 Γ.tuneOk.arguments := bitRunsLe_of_length (by rw [Γ.tuneOk_arguments]; decide)
  obtain ⟨f, hmade, htype, hchannel, hlength, hread⟩ := exists_frame Γ.connection_mem (Γ.methods_mem (by simp)) hruns
    (tuneOkAssignment Γ channelMax frameMax heartbeat) hsize Γ.memory 0
  exact ⟨f, hmade, htype, hchannel, hlength ▸ hsize, hread⟩

theorem exists_open (Γ : ConnectionEnv) {vhost : List UInt8} (h : validateShortstring vhost = .ok ()) :
    ∃ f, createFromMethod Γ.memory 0 (openOf Γ vhost) = .ok f ∧ ReadAs Γ f (openOf Γ vhost) := by
  have hsize : (openOf Γ vhost).encodedSize < 2 ^ 32 := by
    have hle := validateShortstring_eq_ok h
    rw [encodedSize_open]
    omega
  have hruns : BitRunsLe 32 Γ.openMethod.arguments := bitRunsLe_of_length (by rw [Γ.openMethod_arguments]; decide)
  obtain ⟨f, hmade, htype, hchannel, hlength, hread⟩ := exists_frame Γ.connection_mem (Γ.methods_mem (by simp)) hruns
    (openAssignment Γ vhost h) hsize Γ.memory 0
  exact ⟨f, hmade, htype, hchannel, hlength ▸ hsize, hread⟩

end ConnectionImpl

end Amqpp
