import Amqpp.Theorems.Codec

/-!
# The frame of a method

A method whose members its setters accept, and whose encoding is shorter than `2 ^ 32` bytes, can be put into a frame, and
the frame is read as the method.
-/

namespace Amqpp

/-- The encoding of the arguments, when the whole is not too long. -/
theorem exists_codes {c : ClassDesc} {d : MethodDesc} (hruns : BitRunsLe 32 d.arguments) (x : Assignment d)
    (hsize : (x.method c).encodedSize < 2 ^ 32) : ∃ body, Codes d.arguments x.values 0 x.values body :=
  CodecAux.codes_values x hruns fun v hv hbit =>
    (x.accepted v hv).exists_write (Nat.lt_of_le_of_lt (CodecAux.size_le_encodedSize (c := c) x hruns hv hbit) hsize) hbit

/-- The frame that `create_from_method` makes of them: its payload is full. -/
theorem createFromMethod_of_codes {c : ClassDesc} {d : MethodDesc} {x : Assignment d} {body : List UInt8}
    (hbody : Codes d.arguments x.values 0 x.values body) (hsize : (x.method c).encodedSize < 2 ^ 32) (memory : Nat → UInt8)
    (channel : UInt16) :
    (writeUint16 c.index ++ (writeUint16 d.index ++ body)).length = (x.method c).encodedSize ∧
      createFromMethod memory channel (x.method c) =
        .ok ⟨.method, channel, writeUint16 c.index ++ (writeUint16 d.index ++ body)⟩ := by
  obtain ⟨hwrite, hencoded, hserialized⟩ := CodecAux.write_of_codes (c := c) hbody
  have hlen : (writeUint16 c.index ++ (writeUint16 d.index ++ body)).length = (x.method c).encodedSize := by
    simp only [List.length_append, length_writeUint16, hencoded]
    omega
  have hexact : (x.method c).getSerializedSize.toNat = (x.method c).encodedSize := by
    rw [hserialized, ← hencoded, UInt32.toNat_ofNat_of_lt' hsize]
  refine ⟨hlen, ?_⟩
  rw [createFromMethod, hwrite, hexact]
  change (if _ then _ else _) = _
  rw [if_pos (le_of_eq hlen), hlen, Nat.sub_self]
  simp [pure, Except.pure]

/-- The frame that `create_from_method` makes, and what `method::read` makes of it. -/
theorem exists_frame {Γ : Spec} {c : ClassDesc} (hc : c ∈ Γ.classes) {d : MethodDesc} (hd : d ∈ c.methods)
    (hruns : BitRunsLe 32 d.arguments) (x : Assignment d) (hsize : (x.method c).encodedSize < 2 ^ 32) (memory : Nat → UInt8)
    (channel : UInt16) :
    ∃ f, createFromMethod memory channel (x.method c) = .ok f ∧ f.type = .method ∧ f.channel = channel ∧
      f.payload.length = (x.method c).encodedSize ∧ Γ.readFrame f = .ok (x.method c) := by
  obtain ⟨body, hbody⟩ := exists_codes (c := c) hruns x hsize
  obtain ⟨hlen, hcreate⟩ := createFromMethod_of_codes hbody hsize memory channel
  refine ⟨_, hcreate, rfl, rfl, hlen, ?_⟩
  have hread := CodecAux.reads_of_codes Γ hc hd hbody (by simp only [List.length_append, length_writeUint16] at hlen; omega) []
  rw [List.append_nil] at hread
  simp only [Spec.readFrame, hread]

end Amqpp
