import Amqpp.Wire.Uint

/-!
# Frames

`frame` and `frame_writer`, over the constants that codegen.py generates from the protocol specification.
-/

namespace Amqpp

/-- The generated constants of the framing: the four frame types are distinct, and each constant is one byte. -/
structure Constants where
  frameMethod : UInt8
  frameHeader : UInt8
  frameBody : UInt8
  frameHeartbeat : UInt8
  frameEnd : UInt8
  types_nodup : [frameMethod, frameHeader, frameBody, frameHeartbeat].Nodup

/-- Constants for examples. -/
def Constants.sample : Constants := ⟨1, 2, 3, 8, 206, by decide⟩

/-- `frame::frame_type`. -/
inductive FrameType where
  | method | header | body | heartbeat
  deriving DecidableEq, Repr

/-- `frame`: its type, its channel and the bytes of its shared buffer. -/
structure Frame where
  type : FrameType
  channel : UInt16
  payload : List UInt8
  deriving DecidableEq, Repr

variable (K : Constants)

/-- The enumerators of `frame::frame_type`. -/
def FrameType.code : FrameType → UInt8
  | method => K.frameMethod
  | header => K.frameHeader
  | body => K.frameBody
  | heartbeat => K.frameHeartbeat

/-- `frame::get_frame_type`. -/
def getFrameType (val : UInt8) : Except Exception FrameType :=
  if val = FrameType.code K .method then .ok .method
  else if val = FrameType.code K .header then .ok .header
  else if val = FrameType.code K .body then .ok .body
  else if val = FrameType.code K .heartbeat then .ok .heartbeat
  else .error (.runtimeError "Invalid frame type.")

/-- A byte is accepted as a type exactly when it is the type's enumerator. -/
theorem getFrameType_eq_ok {val : UInt8} {type : FrameType} :
    getFrameType K val = .ok type ↔ val = FrameType.code K type := by
  have hnodup := K.types_nodup
  simp only [List.nodup_cons, List.mem_cons, List.not_mem_nil, or_false, not_or] at hnodup
  obtain ⟨⟨hmh, hmb, hmt⟩, ⟨hhb, hht⟩, hbt, -⟩ := hnodup
  constructor
  · unfold getFrameType
    split_ifs <;> rintro ⟨⟩ <;> assumption
  · rintro rfl
    cases type <;> simp only [getFrameType, FrameType.code, if_true]
    · rw [if_neg (Ne.symm hmh)]
    · rw [if_neg (Ne.symm hmb), if_neg (Ne.symm hhb)]
    · rw [if_neg (Ne.symm hmt), if_neg (Ne.symm hht), if_neg (Ne.symm hbt)]

/-! ## Writing a frame -/

/-- `frame_writer`: the seven bytes of `m_header`, which every frame written through it shares. -/
structure FrameWriter where
  header : List UInt8
  deriving DecidableEq, Repr

/-- The header `get_sequence` writes: type, channel and the size of the payload in 32 bits. -/
def Frame.header (f : Frame) : List UInt8 :=
  writeUint8 (FrameType.code K f.type) ++ (writeUint16 f.channel ++ writeUint32 (UInt32.ofNat f.payload.length))

/-- `frame_writer::get_sequence` fills `m_header` for the frame. The sequence it returns refers to that header, to the bytes
of the frame and to the end octet. -/
def FrameWriter.getSequence (_w : FrameWriter) (f : Frame) : FrameWriter := ⟨f.header K⟩

/-- The bytes a sequence refers to, as long as the header is the frame's own. -/
def Frame.sequence (f : Frame) : List UInt8 := f.header K ++ (f.payload ++ [K.frameEnd])

/-- The bytes of the three buffers that the sequence for a frame refers to, whatever is in `m_header`. -/
def FrameWriter.sequence (w : FrameWriter) (f : Frame) : List UInt8 := w.header ++ (f.payload ++ [K.frameEnd])

/-- Until `m_header` is filled again, they are the bytes of the frame. -/
@[simp] theorem FrameWriter.sequence_getSequence (w : FrameWriter) (f : Frame) :
    (w.getSequence K f).sequence K f = f.sequence K := rfl

/-- One frame after the other is written through the same writer: the bytes of the sequences. -/
def FrameWriter.writeFrames (w : FrameWriter) : List Frame → List UInt8
  | [] => []
  | f :: frames => (w.getSequence K f).sequence K f ++ (w.getSequence K f).writeFrames frames

theorem FrameWriter.writeFrames_eq (w : FrameWriter) (frames : List Frame) :
    w.writeFrames K frames = frames.flatMap (·.sequence K) := by
  induction frames generalizing w with
  | nil => rfl
  | cons f frames ih => rw [writeFrames, sequence_getSequence, ih, List.flatMap_cons]

@[simp] theorem Frame.length_header (f : Frame) : (f.header K).length = 7 := by
  simp [header]

@[simp] theorem Frame.length_sequence (f : Frame) : (f.sequence K).length = f.payload.length + 8 := by
  simp only [sequence, List.length_append, length_header, List.length_singleton]
  omega

end Amqpp
