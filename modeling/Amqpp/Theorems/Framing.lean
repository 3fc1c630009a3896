import Amqpp.Frame.Phases

/-!
# Framing

Reading undoes writing on streams of frames, and what is read was written: `read_frame` accepts a stream if and only if the
stream opens with the bytes of a frame.
-/

namespace Amqpp

namespace FramingAux

variable (K : Constants)

/-- Reading again and again over the bytes of frames returns them, as long as there are reads enough, and leaves nothing. -/
theorem readFrames_flatMap (frames : List Frame) (hlen : ∀ f ∈ frames, f.payload.length < 2 ^ 32) (k : Nat)
    (hk : frames.length ≤ k) (b : FrameBuilder) :
    readFrames K k b (frames.flatMap (·.sequence K)) = (frames, []) := by
  have hread := readFrames_append K hlen (readFrame_nil K) hk b
  rwa [List.append_nil] at hread

/-- What `read_frame` accepts, and what it leaves. -/
theorem readFrame_eq_ok_iff (b : FrameBuilder) (buf : List UInt8) (f : Frame) (s : IStream) :
    (∃ b', readFrame K b (.ofString buf) = .ok ((f, b'), s)) ↔
      ∃ rest, buf = f.sequence K ++ rest ∧ s = .ofString rest ∧ f.payload.length < 2 ^ 32 := by
  constructor
  · intro ⟨b', h⟩
    obtain ⟨p, rest, hbuf, hs, hlen, rfl⟩ := parses_readFrame K b buf (f, b') s h
    exact ⟨rest, hbuf, hs, hlen⟩
  · intro ⟨rest, hbuf, hs, hlen⟩
    obtain ⟨b', hread⟩ := reads_readFrame K b f hlen
    exact ⟨b', by rw [hbuf, hs, hread rest]⟩

/-- A stream that does not open with a frame type is rejected. -/
theorem readFrame_unknown_type (b b' : FrameBuilder) (f : Frame) (s : IStream) {ty : UInt8} (rest : List UInt8)
    (hty : ∀ type, ty ≠ FrameType.code K type) : readFrame K b (.ofString (ty :: rest)) ≠ .ok ((f, b'), s) := by
  intro h
  obtain ⟨rest', hbuf, -⟩ := (readFrame_eq_ok_iff K b _ f s).mp ⟨b', h⟩
  exact hty f.type (List.cons.inj hbuf).1

/-- A frame whose last byte is not the end octet is rejected. -/
theorem readFrame_bad_end (b b' : FrameBuilder) (f g : Frame) (s : IStream) {e : UInt8} (rest : List UInt8)
    (he : e ≠ K.frameEnd) (hlen : g.payload.length < 2 ^ 32) :
    readFrame K b (.ofString (g.header K ++ (g.payload ++ [e]) ++ rest)) ≠ .ok ((f, b'), s) := by
  intro h
  obtain ⟨rest', hbuf, -, hflen⟩ := (readFrame_eq_ok_iff K b _ f s).mp ⟨b', h⟩
  -- Both headers are the first seven bytes, so the sizes agree and the end octets stand in the same place.
  simp only [Frame.sequence, List.append_assoc] at hbuf
  obtain ⟨hheader, hbuf⟩ := List.append_inj hbuf (by rw [Frame.length_header, Frame.length_header])
  have hsize : UInt32.ofNat g.payload.length = UInt32.ofNat f.payload.length := by
    obtain ⟨-, hheader⟩ := List.append_inj hheader rfl
    obtain ⟨-, hheader⟩ := List.append_inj hheader (by rw [length_writeUint16, length_writeUint16])
    exact ((reads_readUint32 _).inj (reads_readUint32 _) (congrArg (· ++ []) hheader)).1
  have hpayload := congrArg UInt32.toNat hsize
  rw [UInt32.toNat_ofNat_of_lt' hlen, UInt32.toNat_ofNat_of_lt' hflen] at hpayload
  obtain ⟨-, hend⟩ := List.append_inj hbuf hpayload
  exact he (List.cons.inj hend).1

end FramingAux

open FramingAux

/-- Framing is a bijection between frames and the streams that open with one. What a writer sends for frames is the bytes of
one after the other, and reading over them returns the frames and stops at the end; `read_frame` accepts a stream exactly when
it is the bytes of the frame returned and the rest left; so a stream with an unknown type byte or a wrong end octet is
rejected. -/
theorem framing_bijective (K : Constants) (b : FrameBuilder) :
    (∀ (w : FrameWriter) frames, w.writeFrames K frames = frames.flatMap (·.sequence K)) ∧
    (∀ frames : List Frame, (∀ f ∈ frames, f.payload.length < 2 ^ 32) → ∀ k, frames.length ≤ k →
      readFrames K k b (frames.flatMap (·.sequence K)) = (frames, [])) ∧
    (∀ buf f s, (∃ b', readFrame K b (.ofString buf) = .ok ((f, b'), s)) ↔
      ∃ rest, buf = f.sequence K ++ rest ∧ s = .ofString rest ∧ f.payload.length < 2 ^ 32) ∧
    (∀ ty rest, (∀ type, ty ≠ FrameType.code K type) → ∃ e, readFrame K b (.ofString (ty :: rest)) = .error e) ∧
    (∀ (g : Frame) end' rest, g.payload.length < 2 ^ 32 → end' ≠ K.frameEnd →
      ∃ e, readFrame K b (.ofString (g.header K ++ (g.payload ++ [end']) ++ rest)) = .error e) := by
  refine ⟨fun w => w.writeFrames_eq K, fun frames hlen k hk => readFrames_flatMap K frames hlen k hk b,
    readFrame_eq_ok_iff K b, ?_, ?_⟩
  · intro ty rest hty
    rcases h : readFrame K b (.ofString (ty :: rest)) with e | ⟨⟨f, b'⟩, s⟩
    · exact ⟨e, rfl⟩
    · exact absurd h (readFrame_unknown_type K b b' f s rest hty)
  · intro g end' rest hlen hend
    rcases h : readFrame K b (.ofString (g.header K ++ (g.payload ++ [end']) ++ rest)) with e | ⟨⟨f, b'⟩, s⟩
    · exact ⟨e, rfl⟩
    · exact absurd h (readFrame_bad_end K b b' f g s rest hend hlen)

/-- An empty heartbeat frame and a body frame with one byte, sent by a writer and read back in order. -/
theorem framing_bijective_two :
    readFrames .sample 3 .create (FrameWriter.writeFrames .sample ⟨List.replicate 7 0⟩ [⟨.heartbeat, 0, []⟩, ⟨.body, 258, [7]⟩]) =
      ([⟨.heartbeat, 0, []⟩, ⟨.body, 258, [7]⟩], []) := by
  obtain ⟨hwrite, hread, -⟩ := framing_bijective .sample .create
  rw [hwrite]
  exact hread _ (by decide) 3 (by decide)

end Amqpp
