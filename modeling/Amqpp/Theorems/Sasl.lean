import Amqpp.Sasl.Basic

/-!
# PLAIN credentials

The mechanism has to stand in the broker's list as a word of its own, and neither credential may hold a zero byte; then the
response tells the credentials apart, whatever they are.
-/

namespace Amqpp

open Sasl

/-- Choosing the mechanism and responding succeeds exactly when PLAIN stands in the list with white space or an end on
either side and neither credential has a zero byte. The response splits at its zero bytes into nothing, the user name and
the password, so equal responses come from equal credentials. -/
theorem plain_credentials_recovered (B : StringAlgo) :
    (∀ mechanismList username password, (∃ r, response B mechanismList username password = .ok r) ↔
      Split.Delimited B.isSpace plainMechanism mechanismList ∧ 0 ∉ username ∧ 0 ∉ password) ∧
    (∀ mechanismList username password r, response B mechanismList username password = .ok r →
      r.splitOn 0 = [[], username, password]) ∧
    ∀ mechanismList mechanismList' username username' password password' r,
      response B mechanismList username password = .ok r → response B mechanismList' username' password' = .ok r →
      username = username' ∧ password = password' := by
  have hsplit : ∀ mechanismList username password r, response B mechanismList username password = .ok r →
      r.splitOn 0 = [[], username, password] := by
    intro mechanismList username password r h
    obtain ⟨-, ⟨hu, hp⟩, rfl⟩ := response_eq_ok.mp h
    rw [List.splitOn_eq_splitOnP]
    exact (pieces_plainResponse hu hp).eq_splitOnP.symm
  refine ⟨fun mechanismList username password => ?_, hsplit, ?_⟩
  · simp only [response_eq_ok, exists_and_left, exists_eq, and_true]
  · intro mechanismList mechanismList' username username' password password' r h h'
    have heq := (hsplit _ _ _ r h).symm.trans (hsplit _ _ _ r h')
    obtain ⟨-, htail⟩ := List.cons.inj heq
    obtain ⟨hu, htail⟩ := List.cons.inj htail
    exact ⟨hu, (List.cons.inj htail).1⟩

/-- White space in the classic locale, and a `split` that cuts at every separator. -/
def classicAlgo : StringAlgo where
  isSpace b := b = 32 ∨ 9 ≤ b ∧ b ≤ 13
  split p s := s.splitOnP p
  isSpace_plain := by
    simp only [plainMechanism, List.forall_mem_cons]
    exact ⟨rfl, rfl, rfl, rfl, rfl, by simp⟩
  split_pieces _ _ := Split.pieces_iff.mpr rfl

/-- PLAIN is found after AMQPLAIN and a space, and not inside AMQPLAIN. -/
theorem plain_credentials_amqplain :
    (∃ r, response classicAlgo ("AMQPLAIN PLAIN".toList.map Char.toUInt8) [117] [112] = .ok r ∧
      r.splitOn 0 = [[], [117], [112]]) ∧
    ¬∃ r, response classicAlgo ("AMQPLAIN".toList.map Char.toUInt8) [117] [112] = .ok r := by
  obtain ⟨hiff, hsplit, -⟩ := plain_credentials_recovered classicAlgo
  have hplain : Split.Delimited classicAlgo.isSpace plainMechanism ("AMQPLAIN PLAIN".toList.map Char.toUInt8) := by
    refine ⟨"AMQPLAIN ".toList.map Char.toUInt8, [], by decide, fun a ha => ?_, by simp⟩
    obtain rfl : 32 = a := Option.some.inj ha
    rfl
  obtain ⟨r, hr⟩ := (hiff _ [117] [112]).mpr ⟨hplain, by decide, by decide⟩
  refine ⟨⟨r, hr, hsplit _ _ _ r hr⟩, fun h => ?_⟩
  have hmem := (plainMechanism_mem_iff _).mpr ((hiff _ _ _).mp h).1
  revert hmem
  decide

end Amqpp
