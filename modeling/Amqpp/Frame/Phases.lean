import Amqpp.Codegen.ReadErrors
import Amqpp.Frame.Builder

/-!
# The two reads of a frame

`read_frame` cut where it waits for the socket: after the eight bytes of the header, and after the body. What it comes to is
told from the builder at that point, whatever the builder was used for before.
-/

namespace Amqpp

open FrameBuilder

variable (K : Constants)

/-- A reset builder with the bytes of a header. -/
def FrameBuilder.ofHeader (b : FrameBuilder) (header : List UInt8) : FrameBuilder := { b.reset with header := header }

/-- What a header is read as does not depend on the builder: a reset leaves nothing of it but the type, and a valid header
overwrites that. -/
theorem isBodyReadRequired_ofHeader (b b' : FrameBuilder) (header : List UInt8) :
    (b.ofHeader header).isBodyReadRequired K = (b'.ofHeader header).isBodyReadRequired K := by
  have hset : ∀ type channel size last, (b.ofHeader header).setHeader K type channel size last =
      (b'.ofHeader header).setHeader K type channel size last := fun _ _ _ _ => rfl
  have hvalidate : (b.ofHeader header).validateHeader K = (b'.ofHeader header).validateHeader K := by
    unfold validateHeader
    rw [if_pos (show (b.ofHeader header).state = .invalid from rfl), if_pos (show (b'.ofHeader header).state = .invalid from rfl)]
    simp only [hset]
    rfl
  unfold isBodyReadRequired
  rw [hvalidate]

/-- The reads of a header throw errors of reading, and not the end of the bytes of the socket. -/
theorem throws_headerFields : Reader.Throws Exception.IsReadError (headerFields K) := by
  refine ReadErrorsAux.throws_readUint8.bind fun code => Reader.Throws.bind (Reader.Throws.lift fun e he => ?_) fun type => ?_
  · unfold getFrameType at he
    split_ifs at he
    cases he
    exact Or.inl ⟨_, rfl⟩
  · exact ReadErrorsAux.throws_readUint16.bind fun _ => ReadErrorsAux.throws_readUint32.bind fun _ =>
      ReadErrorsAux.throws_readUint8.map _

theorem isBodyReadRequired_ne_endOfFile (b : FrameBuilder) (header : List UInt8) :
    (b.ofHeader header).isBodyReadRequired K ≠ .error .endOfFile := by
  unfold isBodyReadRequired validateHeader
  rw [if_pos (show (b.ofHeader header).state = .invalid from rfl)]
  rcases hfields : headerFields K (.ofString (b.ofHeader header).header) with e | ⟨⟨type, channel, size, last⟩, s⟩
  · have he := throws_headerFields K _ _ hfields
    rintro h
    cases h
    rcases he with ⟨what, he⟩ | he
    · cases he
    · cases he
  · simp only [bind, Except.bind]
    unfold setHeader
    split_ifs <;> exact nofun

theorem createFrame_ne_endOfFile (b : FrameBuilder) : b.createFrame K ≠ .error .endOfFile := by
  unfold createFrame validateBody
  cases b.state with
  | invalid => exact nofun
  | validHeader =>
    simp only
    split <;> exact nofun
  | validBoth => exact nofun

/-- What `read_frame` does once it has the frame's builder. -/
def finishFrame (b : FrameBuilder) : Reader Exception (Frame × FrameBuilder) := do
  let f ← Reader.lift (b.createFrame K)
  return (f, b)

theorem finishFrame_of_ok {b : FrameBuilder} {f : Frame} (h : b.createFrame K = .ok f) (s : IStream) :
    finishFrame K b s = .ok ((f, b), s) := by
  unfold finishFrame
  rw [h]
  rfl

theorem finishFrame_of_error {b : FrameBuilder} {e : Exception} (h : b.createFrame K = .error e) (s : IStream) :
    finishFrame K b s = .error e := by
  unfold finishFrame
  rw [h]
  rfl

/-- Nothing to read. -/
theorem readFrame_nil (b : FrameBuilder) : readFrame K b (.ofString []) = .error .endOfFile := rfl

section phases

variable {b : FrameBuilder} {header : List UInt8} (hlen : header.length = 8)

include hlen

/-- After the header. -/
theorem readFrame_header (rest : List UInt8) : readFrame K b (.ofString (header ++ rest)) =
    (do
      let (required, b) ← Reader.lift ((b.ofHeader header).isBodyReadRequired K)
      let b ← readBody K required b
      finishFrame K b : Reader Exception (Frame × FrameBuilder)) (.ofString rest) :=
  Reader.bind_of_ok (Reader.Reads.exactly hlen _ rest)

/-- A malformed header. -/
theorem readFrame_of_error {e : Exception} (h : (b.ofHeader header).isBodyReadRequired K = .error e) (b' : FrameBuilder) :
    readFrame K b' (.ofString header) = .error e := by
  rw [← List.append_nil header, readFrame_header K hlen, isBodyReadRequired_ofHeader K b' b, h]
  rfl

/-- The header of an empty frame. -/
theorem readFrame_of_empty {b₁ : FrameBuilder} (h : (b.ofHeader header).isBodyReadRequired K = .ok (false, b₁)) (b' : FrameBuilder) :
    readFrame K b' (.ofString header) = finishFrame K b₁ (.ofString []) := by
  rw [← List.append_nil header, readFrame_header K hlen, isBodyReadRequired_ofHeader K b' b, h]
  rfl

/-- The header of any other frame: its body is missing. -/
theorem readFrame_of_body_missing {b₁ : FrameBuilder} {n : Nat} (h : (b.ofHeader header).isBodyReadRequired K = .ok (true, b₁))
    (hbuffer : b₁.getBodyBuffer K = .ok ((n, 1), b₁)) (b' : FrameBuilder) :
    readFrame K b' (.ofString header) = .error .endOfFile := by
  have hbody : readBody K true b₁ (.ofString []) = .error .endOfFile := by
    unfold readBody
    rw [if_pos rfl, hbuffer]
    rfl
  rw [← List.append_nil header, readFrame_header K hlen, isBodyReadRequired_ofHeader K b' b, h]
  change (readBody K true b₁ >>= finishFrame K) (.ofString []) = _
  exact Reader.bind_of_error hbody

/-- A header and the body it announces. -/
theorem readFrame_of_body {b₁ : FrameBuilder} {n : Nat} (h : (b.ofHeader header).isBodyReadRequired K = .ok (true, b₁))
    (hbuffer : b₁.getBodyBuffer K = .ok ((n, 1), b₁)) {body : List UInt8} (hbody : body.length = n + 1) (b' : FrameBuilder) :
    readFrame K b' (.ofString (header ++ body)) = finishFrame K (b₁.fillBody n body) (.ofString []) := by
  have hread : Reader.Reads (readBody K true b₁) body (b₁.fillBody n body) :=
    Reader.Reads.lift_bind hbuffer ((Reader.Reads.exactly hbody _).map _)
  rw [readFrame_header K hlen, isBodyReadRequired_ofHeader K b' b, h]
  have hrest := hread []
  rw [List.append_nil] at hrest
  change (readBody K true b₁ >>= finishFrame K) (.ofString body) = _
  exact Reader.bind_of_ok hrest

/-- A body is required when the header announces one: then its buffer starts behind the first byte. -/
theorem size_of_required {b₁ : FrameBuilder} (h : (b.ofHeader header).isBodyReadRequired K = .ok (true, b₁)) :
    ∃ type channel size last, b₁.header = headerBytes K type channel size last ∧ 1 ≤ size.toNat ∧
      b₁.getBodyBuffer K = .ok ((size.toNat - 1, 1), b₁) := by
  obtain ⟨hvalid, hrequired⟩ := (isBodyReadRequired_eq_ok K).mp h
  obtain ⟨type, channel, size, last, hheader, hset⟩ := (validateHeader_eq_ok K rfl hlen).mp hvalid
  unfold setHeader at hset
  by_cases hsize : size = 0
  · -- An empty body is not read.
    rw [if_pos hsize] at hset
    split at hset
    · cases hset
    · cases hset
      cases hrequired
  · rw [if_neg hsize] at hset
    cases hset
    have hpos : 1 ≤ size.toNat := Nat.pos_of_ne_zero fun h => hsize (UInt32.toNat_inj.mp h)
    refine ⟨type, channel, size, last, hheader, hpos, ?_⟩
    rw [getBodyBuffer_eq K BuilderState.noConfusion]
    simp

end phases

/-! ## Many frames -/

/-- Reading again and again over the bytes of frames and bytes that no frame can be read from, as long as there are reads
enough: the frames are returned, and the rest is left. -/
theorem readFrames_append {frames : List Frame} {left : List UInt8} {e : Exception} (hlen : ∀ f ∈ frames, f.payload.length < 2 ^ 32)
    (hleft : ∀ b, readFrame K b (.ofString left) = .error e) {k : Nat} (hk : frames.length ≤ k) (b : FrameBuilder) :
    readFrames K k b (frames.flatMap (·.sequence K) ++ left) = (frames, left) := by
  induction frames generalizing k b with
  | nil =>
    cases k with
    | zero => rfl
    | succ k =>
      rw [List.flatMap_nil, List.nil_append, readFrames, hleft]
  | cons f fs ih =>
    obtain ⟨k, rfl⟩ : ∃ j, k = j + 1 := ⟨k - 1, by rw [List.length_cons] at hk; omega⟩
    obtain ⟨b', hread⟩ := reads_readFrame K b f (hlen f List.mem_cons_self)
    have hrest := ih (fun g hg => hlen g (List.mem_cons_of_mem _ hg)) (by rw [List.length_cons] at hk; omega : fs.length ≤ k) b'
    rw [List.flatMap_cons, List.append_assoc, readFrames, hread]
    simp only [IStream.ofString] at hrest ⊢
    rw [hrest]

/-- There are at least as many bytes as frames. -/
theorem length_le_flatMap_sequence (frames : List Frame) : frames.length ≤ (frames.flatMap (·.sequence K)).length := by
  induction frames with
  | nil => exact Nat.le_refl 0
  | cons f fs ih =>
    rw [List.flatMap_cons, List.length_append, List.length_cons, Frame.length_sequence]
    omega

end Amqpp
