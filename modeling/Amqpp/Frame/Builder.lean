import Amqpp.Frame.Basic

/-!
# Reading a frame

`frame_builder`, and `connection_manager::read_frame` over it. The builder reads eight bytes first: the seven of the header
and one more, which is the end octet of an empty frame and the first byte of the payload of any other.
-/

namespace Amqpp

/-- `frame_builder::builder_state`. -/
inductive BuilderState where
  | invalid | validHeader | validBoth
  deriving DecidableEq, Repr

/-- `frame_builder`. `body` is the buffer behind `m_body`, empty where `m_body` is null; `fin` is `m_end`. -/
structure FrameBuilder where
  state : BuilderState
  header : List UInt8
  type : FrameType
  channel : UInt16
  body : List UInt8
  fin : UInt8
  deriving DecidableEq, Repr

namespace FrameBuilder

/-- `reset`. It leaves `m_type` alone. -/
def reset (b : FrameBuilder) : FrameBuilder :=
  { b with state := .invalid, header := List.replicate 8 0, channel := 0, body := [], fin := 0 }

/-- The constructor. It does not initialise `m_type`, which no function reads before a valid header. -/
def create : FrameBuilder := reset ⟨.invalid, [], .method, 0, [], 0⟩

variable (K : Constants)

/-- The reads of `validate_header`: type, channel, size and the last of the eight bytes. -/
def headerFields : Reader Exception (FrameType × UInt16 × UInt32 × UInt8) := do
  let type ← Reader.lift (getFrameType K (← readUint8))
  let channel ← readUint16
  let size ← readUint32
  let last ← readUint8
  return (type, channel, size, last)

/-- What `validate_header` makes of the fields it read. A new body is not initialised past its first byte. -/
def setHeader (b : FrameBuilder) (type : FrameType) (channel : UInt16) (size : UInt32) (last : UInt8) :
    Except Exception FrameBuilder :=
  if size = 0 then
    if last ≠ K.frameEnd then .error (.runtimeError "Framing error: bad end octet")
    else .ok { b with state := .validBoth, type := type, channel := channel, body := [] }
  else .ok { b with
    state := .validHeader, type := type, channel := channel, body := last :: List.replicate (size.toNat - 1) 0 }

/-- `validate_header`. -/
def validateHeader (b : FrameBuilder) : Except Exception FrameBuilder :=
  if b.state = .invalid then do
    let ((type, channel, size, last), _) ← headerFields K (.ofString b.header)
    b.setHeader K type channel size last
  else .ok b

/-- `is_body_read_required`. -/
def isBodyReadRequired (b : FrameBuilder) : Except Exception (Bool × FrameBuilder) := do
  let b ← b.validateHeader K
  return (if b.body.length = 0 then false else true, b)

/-- `get_body_buffer`: the sizes of the two buffers a read has to fill, the body after its first byte and the end octet. -/
def getBodyBuffer (b : FrameBuilder) : Except Exception ((Nat × Nat) × FrameBuilder) := do
  let b ← b.validateHeader K
  return ((b.body.length - 1, 1), b)

/-- A read of both buffers: `n` bytes behind the first byte of the body, and the end octet. -/
def fillBody (b : FrameBuilder) (n : Nat) (bytes : List UInt8) : FrameBuilder :=
  { b with body := b.body.take 1 ++ bytes.take n, fin := (bytes.drop n).headD 0 }

/-- `validate_body`. -/
def validateBody (b : FrameBuilder) : Except Exception Unit :=
  match b.state with
  | .invalid => .error (.logicError "validate_body called before a valid header existed")
  | .validHeader =>
    if b.fin ≠ K.frameEnd then .error (.runtimeError "Framing error: bad end octet") else .ok ()
  | .validBoth => .ok ()

/-- `create_frame`. -/
def createFrame (b : FrameBuilder) : Except Exception Frame := do
  b.validateBody K
  return ⟨b.type, b.channel, b.body⟩

end FrameBuilder

variable (K : Constants)

/-- The second read of `read_frame`, when a body is required. -/
def readBody (required : Bool) (b : FrameBuilder) : Reader Exception FrameBuilder :=
  if required then do
    let ((n, m), b) ← Reader.lift (b.getBodyBuffer K)
    let bytes ← Reader.exactly (n + m) .endOfFile
    return b.fillBody n bytes
  else return b

/-- `connection_manager::read_frame` over the bytes of the socket. The builder is the member `m_builder`. -/
def readFrame (b : FrameBuilder) : Reader Exception (Frame × FrameBuilder) := do
  let header ← Reader.exactly 8 .endOfFile
  let (required, b) ← Reader.lift ({ b.reset with header := header }.isBodyReadRequired K)
  let b ← readBody K required b
  let f ← Reader.lift (b.createFrame K)
  return (f, b)

/-- `read_frame` run again and again, `k` times at most, until it throws: the frames it returned and the bytes it left at
its last return. -/
def readFrames : Nat → FrameBuilder → List UInt8 → List Frame × List UInt8
  | 0, _, buf => ([], buf)
  | k + 1, b, buf =>
    match readFrame K b (.ofString buf) with
    | .ok ((f, b), s) => ((f :: (readFrames k b s.buf).1), (readFrames k b s.buf).2)
    | .error _ => ([], buf)

/-! ## What a frame is read from -/

namespace FrameBuilder

/-- The eight bytes read first. -/
def headerBytes (type : FrameType) (channel : UInt16) (size : UInt32) (last : UInt8) : List UInt8 :=
  writeUint8 (FrameType.code K type) ++ (writeUint16 channel ++ (writeUint32 size ++ writeUint8 last))

theorem length_headerBytes (type : FrameType) (channel : UInt16) (size : UInt32) (last : UInt8) :
    (headerBytes K type channel size last).length = 8 := by
  simp [headerBytes]

theorem reads_headerFields (type : FrameType) (channel : UInt16) (size : UInt32) (last : UInt8) :
    Reader.Reads (headerFields K) (headerBytes K type channel size last) (type, channel, size, last) := by
  refine (reads_readUint8 _).bind ?_
  refine Reader.Reads.lift_bind ((getFrameType_eq_ok K).mpr rfl) ?_
  refine (reads_readUint16 channel).bind ((reads_readUint32 size).bind ?_)
  exact (reads_readUint8 last).map _

theorem parses_headerFields :
    Reader.Parses (headerFields K) (fun p h => p = headerBytes K h.1 h.2.1 h.2.2.1 h.2.2.2) := by
  refine (parses_readUint8.bind fun _ => (Reader.Parses.lift _).bind fun _ => parses_readUint16.bind fun _ =>
    parses_readUint32.bind fun _ => parses_readUint8.bind fun _ => Reader.Parses.pure _).mono ?_
  rintro _ h ⟨_, code, _, rfl, rfl, _, type, _, rfl, ⟨rfl, htype⟩, _, channel, _, rfl, rfl, _, size, _, rfl, rfl,
    _, last, _, rfl, rfl, rfl, rfl⟩
  rw [(getFrameType_eq_ok K).mp htype, List.append_nil]
  rfl

/-- A fresh builder accepts eight bytes exactly when they are a header whose last byte fits its size. -/
theorem validateHeader_eq_ok {b b' : FrameBuilder} (hb : b.state = .invalid) (hlen : b.header.length = 8) :
    b.validateHeader K = .ok b' ↔ ∃ type channel size last, b.header = headerBytes K type channel size last ∧
      b.setHeader K type channel size last = .ok b' := by
  rw [validateHeader, if_pos hb]
  constructor
  · intro h
    obtain ⟨⟨⟨type, channel, size, last⟩, s⟩, hfields, hset⟩ := Except.bind_eq_ok.mp h
    obtain ⟨p, rest, hp, -, rfl⟩ := parses_headerFields K _ _ _ hfields
    have hrest : rest = [] := by
      have hl := congrArg List.length hp
      rw [List.length_append, length_headerBytes, hlen] at hl
      exact List.length_eq_zero_iff.mp (by omega)
    exact ⟨type, channel, size, last, by rw [hp, hrest, List.append_nil], hset⟩
  · intro ⟨type, channel, size, last, hh, hset⟩
    have hfields := reads_headerFields K type channel size last []
    rw [List.append_nil, ← hh] at hfields
    exact Except.bind_eq_ok.mpr ⟨_, hfields, hset⟩

theorem isBodyReadRequired_eq_ok {b b' : FrameBuilder} {required : Bool} :
    b.isBodyReadRequired K = .ok (required, b') ↔
      b.validateHeader K = .ok b' ∧ required = if b'.body.length = 0 then false else true := by
  rw [isBodyReadRequired, Except.bind_eq_ok]
  constructor
  · intro ⟨b₁, h, hret⟩
    cases hret
    exact ⟨h, rfl⟩
  · intro ⟨h, hreq⟩
    exact ⟨b', h, hreq ▸ rfl⟩

/-- What `is_body_read_required` throws is an exception of the library. -/
theorem isBodyReadRequired_ne_stuck (b : FrameBuilder) : b.isBodyReadRequired K ≠ .error .stuck := by
  have htype : ∀ code, getFrameType K code ≠ .error .stuck := by
    intro code
    unfold getFrameType
    split_ifs <;> simp
  have hfields : Reader.Ends .stuck b.header.length (headerFields K) := by
    refine ends_readUint8.bind parses_readUint8 fun _ code _ _ => ?_
    refine (Reader.Ends.lift (htype code)).bind (Reader.Parses.lift _) fun _ type _ _ => ?_
    refine ends_readUint16.bind parses_readUint16 fun _ _ _ _ => ends_readUint32.bind parses_readUint32 fun _ _ _ _ => ?_
    exact ends_readUint8.map _
  refine Except.bind_ne_error ?_ fun b' => by simp [pure, Except.pure]
  unfold validateHeader setHeader
  split
  · refine Except.bind_ne_error (hfields b.header (Nat.le_refl _)) fun r => ?_
    dsimp only
    split_ifs <;> simp
  · simp

/-- What `create_frame` throws is, too. -/
theorem createFrame_ne_stuck (b : FrameBuilder) : b.createFrame K ≠ .error .stuck := by
  refine Except.bind_ne_error ?_ fun _ => by simp [pure, Except.pure]
  unfold validateBody
  split
  · simp
  · split_ifs <;> simp
  · simp

/-- The body a frame is read into, and the end octet behind it, once the header is valid. -/
theorem getBodyBuffer_eq {b : FrameBuilder} (h : b.state ≠ .invalid) :
    b.getBodyBuffer K = .ok ((b.body.length - 1, 1), b) := by
  rw [getBodyBuffer, validateHeader, if_neg h]
  rfl

end FrameBuilder

open FrameBuilder

/-- The bytes of a frame, split after the eighth: an empty frame ends there. -/
theorem sequence_of_nil (type : FrameType) (channel : UInt16) :
    (Frame.mk type channel []).sequence K = headerBytes K type channel 0 K.frameEnd := by
  simp [Frame.sequence, Frame.header, headerBytes, writeUint8]

theorem sequence_of_cons (type : FrameType) (channel : UInt16) (x : UInt8) (xs : List UInt8) :
    (Frame.mk type channel (x :: xs)).sequence K =
      headerBytes K type channel (UInt32.ofNat (xs.length + 1)) x ++ (xs ++ [K.frameEnd]) := by
  simp [Frame.sequence, Frame.header, headerBytes, writeUint8]

/-- `read_frame` reads the bytes of a frame, whatever the builder was used for before. -/
theorem reads_readFrame (b : FrameBuilder) (f : Frame) (hlen : f.payload.length < 2 ^ 32) :
    ∃ b', Reader.Reads (readFrame K b) (f.sequence K) (f, b') := by
  obtain ⟨type, channel, payload⟩ := f
  cases payload with
  | nil =>
    rw [sequence_of_nil]
    generalize hh : headerBytes K type channel 0 K.frameEnd = header
    have hhlen : header.length = 8 := hh ▸ length_headerBytes K type channel 0 K.frameEnd
    let b₀ : FrameBuilder := { b.reset with header := header }
    let b₁ : FrameBuilder := { b₀ with state := .validBoth, type := type, channel := channel, body := [] }
    have hset : b₀.setHeader K type channel 0 K.frameEnd = .ok b₁ := by
      rw [setHeader, if_pos rfl, if_neg (not_not.mpr rfl)]
    have hval : b₀.validateHeader K = .ok b₁ :=
      (validateHeader_eq_ok K rfl hhlen).mpr ⟨type, channel, 0, K.frameEnd, hh.symm, hset⟩
    refine ⟨b₁, ?_⟩
    rw [← List.append_nil header]
    refine (Reader.Reads.exactly hhlen _).bind ?_
    refine Reader.Reads.lift_bind ((isBodyReadRequired_eq_ok K).mpr ⟨hval, rfl⟩) ?_
    exact (Reader.Reads.lift rfl).map _
  | cons x xs =>
    have hsize : (UInt32.ofNat (xs.length + 1)).toNat = xs.length + 1 := UInt32.toNat_ofNat_of_lt' hlen
    have hne : UInt32.ofNat (xs.length + 1) ≠ 0 := by
      intro h
      rw [h] at hsize
      cases hsize
    rw [sequence_of_cons]
    generalize UInt32.ofNat (xs.length + 1) = size at hsize hne
    generalize hh : headerBytes K type channel size x = header
    have hhlen : header.length = 8 := hh ▸ length_headerBytes K type channel size x
    let b₀ : FrameBuilder := { b.reset with header := header }
    let b₁ : FrameBuilder := { b₀ with
      state := .validHeader, type := type, channel := channel, body := x :: List.replicate (size.toNat - 1) 0 }
    let b₂ : FrameBuilder := { b₁ with body := x :: xs, fin := K.frameEnd }
    have hset : b₀.setHeader K type channel size x = .ok b₁ := by rw [setHeader, if_neg hne]
    have hval : b₀.validateHeader K = .ok b₁ :=
      (validateHeader_eq_ok K rfl hhlen).mpr ⟨type, channel, size, x, hh.symm, hset⟩
    have hbuffer : b₁.getBodyBuffer K = .ok ((xs.length, 1), b₁) := by
      rw [getBodyBuffer_eq K (show b₁.state ≠ .invalid from BuilderState.noConfusion)]
      simp [b₁, hsize]
    have hfill : b₁.fillBody xs.length (xs ++ [K.frameEnd]) = b₂ := by
      simp [fillBody, b₁, b₂]
    have hcreate : b₂.createFrame K = .ok ⟨type, channel, x :: xs⟩ := by
      rw [createFrame, validateBody, if_neg (not_not.mpr rfl)]
      rfl
    have hbody : Reader.Reads (readBody K true b₁) (xs ++ [K.frameEnd]) b₂ := by
      refine Reader.Reads.lift_bind hbuffer ?_
      rw [← hfill]
      exact (Reader.Reads.exactly (by simp) _).map _
    refine ⟨b₂, (Reader.Reads.exactly hhlen _).bind ?_⟩
    refine Reader.Reads.lift_bind ((isBodyReadRequired_eq_ok K).mpr ⟨hval, rfl⟩) ?_
    rw [← List.append_nil (xs ++ _)]
    exact hbody.bind ((Reader.Reads.lift hcreate).map _)

/-- A frame with a body: its second read and its end octet. -/
theorem parses_readBody {type : FrameType} {channel : UInt16} {size : UInt32} {x : UInt8} {b b₁ b₂ : FrameBuilder}
    {f : Frame} (hne : size ≠ 0) (hset : b.setHeader K type channel size x = .ok b₁) {buf : List UInt8} {s : IStream}
    (hbody : readBody K true b₁ (.ofString buf) = .ok (b₂, s)) (hcreate : b₂.createFrame K = .ok f) :
    ∃ xs rest, buf = (xs ++ [K.frameEnd]) ++ rest ∧ s = .ofString rest ∧ xs.length + 1 = size.toNat ∧
      f = ⟨type, channel, x :: xs⟩ := by
  rw [setHeader, if_neg hne, Except.ok.injEq] at hset
  subst hset
  have hpos : 0 < size.toNat := Nat.pos_of_ne_zero fun h => hne (UInt32.toNat_inj.mp h)
  obtain ⟨_, hbuffer, hread⟩ := Reader.lift_bind_eq_ok.mp hbody
  rw [getBodyBuffer_eq K BuilderState.noConfusion] at hbuffer
  cases hbuffer
  obtain ⟨bytes, rest, rfl, hlen, hret⟩ := Reader.exactly_bind_eq_ok.mp hread
  cases hret
  simp only [List.length_cons, List.length_replicate] at hlen hcreate
  obtain ⟨xs, e, rfl⟩ : ∃ xs e, bytes = xs ++ [e] := by
    rcases List.eq_nil_or_concat' bytes with rfl | h
    · cases hlen
    · exact h
  rw [List.length_append, List.length_singleton] at hlen
  have hxs : size.toNat - 1 + 1 - 1 = xs.length := by omega
  rw [hxs] at hcreate
  obtain ⟨_, hvalid, hret⟩ := Except.bind_eq_ok.mp hcreate
  cases hret
  rw [validateBody] at hvalid
  simp only [fillBody, List.drop_left, List.headD_cons] at hvalid
  by_cases he : e = K.frameEnd
  · refine ⟨xs, rest, by rw [he], rfl, by omega, ?_⟩
    simp [fillBody]
  · rw [if_pos he] at hvalid
    cases hvalid

/-- What `read_frame` accepts opens with the bytes of the frame it returns. -/
theorem parses_readFrame (b : FrameBuilder) :
    Reader.Parses (readFrame K b) (fun p r => r.1.payload.length < 2 ^ 32 ∧ p = r.1.sequence K) := by
  intro buf r s h
  obtain ⟨header, rest, rfl, hhlen, h⟩ := Reader.exactly_bind_eq_ok.mp h
  obtain ⟨⟨required, b₁⟩, hreq, h⟩ := Reader.lift_bind_eq_ok.mp h
  obtain ⟨hval, rfl⟩ := (isBodyReadRequired_eq_ok K).mp hreq
  obtain ⟨b₂, s₁, hbody, h⟩ := Reader.bind_eq_ok.mp h
  obtain ⟨f, hcreate, hret⟩ := Reader.lift_bind_eq_ok.mp h
  cases hret
  obtain ⟨type, channel, size, last, hheader, hset⟩ := (validateHeader_eq_ok K rfl hhlen).mp hval
  change header = _ at hheader
  by_cases hsize : size = 0
  · -- The last of the eight bytes is the end octet, and nothing more is read.
    rw [setHeader, if_pos hsize] at hset
    by_cases hlast : last = K.frameEnd
    · rw [if_neg (not_not.mpr hlast), Except.ok.injEq] at hset
      subst hset
      cases hbody
      cases hcreate
      exact ⟨header, rest, rfl, rfl, Nat.two_pow_pos 32, by rw [hheader, sequence_of_nil, hsize, hlast]⟩
    · rw [if_pos hlast] at hset
      cases hset
  · have hreq : (if b₁.body.length = 0 then false else true) = true := by
      rw [setHeader, if_neg hsize, Except.ok.injEq] at hset
      rw [← hset]
      rfl
    rw [hreq] at hbody
    obtain ⟨xs, rest', rfl, rfl, hlen, rfl⟩ := parses_readBody K hsize hset hbody hcreate
    refine ⟨header ++ (xs ++ [K.frameEnd]), rest', (List.append_assoc _ _ _).symm, rfl, ?_, ?_⟩
    · change xs.length + 1 < 2 ^ 32
      exact hlen ▸ size.toNat_lt
    · change _ = (Frame.mk type channel (last :: xs)).sequence K
      rw [sequence_of_cons, hlen, UInt32.ofNat_toNat, hheader]

end Amqpp
