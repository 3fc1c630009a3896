import Amqpp.Exception
import Amqpp.Lib.Split

/-!
# SASL

amqp_sasl.cpp: the choice of the mechanism from the list the broker sends, and the response of the only one it knows.
-/

namespace Amqpp

namespace Sasl

/-- `PLAIN_MECHANISM`. -/
def plainMechanism : List UInt8 := ['P'.toUInt8, 'L'.toUInt8, 'A'.toUInt8, 'I'.toUInt8, 'N'.toUInt8]

/-- What the code takes from Boost.StringAlgo: `is_space` for the global locale, where no letter is white space, and
`split`, which cuts at every separator and keeps the empty tokens. -/
structure StringAlgo where
  isSpace : UInt8 → Bool
  split : (UInt8 → Bool) → List UInt8 → List (List UInt8)
  isSpace_plain : ∀ b ∈ plainMechanism, isSpace b = false
  split_pieces : ∀ p s, Split.Pieces p s (split p s)

variable (B : StringAlgo)

/-- `select_sasl_mechanism`. -/
def selectSaslMechanism (mechanismList : List UInt8) : Except Exception (List UInt8) :=
  let mechanisms := B.split B.isSpace mechanismList
  match mechanisms.find? (· = plainMechanism) with
  | none => .error (.runtimeError "Broker does not support PLAIN SASL mechanism")
  | some mechanism => .ok mechanism

/-- `get_plain_response`. -/
def getPlainResponse (username password : List UInt8) : Except Exception (List UInt8) :=
  if 0 ∈ username ∨ 0 ∈ password then .error (.runtimeError "Username or password contains a NULL character")
  else .ok ([0] ++ username ++ [0] ++ password)

/-- `get_sasl_response`. -/
def getSaslResponse (mechanism username password : List UInt8) : Except Exception (List UInt8) :=
  if mechanism = plainMechanism then getPlainResponse username password
  else .error (.runtimeError "Unknown SASL mechanism")

/-- The two calls `connection_impl` makes for `start_ok`: the mechanism, and its response. -/
def response (mechanismList username password : List UInt8) : Except Exception (List UInt8) := do
  let mechanism ← selectSaslMechanism B mechanismList
  getSaslResponse mechanism username password

/-! ## The choice of the mechanism -/

variable {B}

/-- Only PLAIN is chosen, and only when it is one of the tokens. -/
theorem selectSaslMechanism_eq (mechanismList : List UInt8) :
    selectSaslMechanism B mechanismList =
      if plainMechanism ∈ B.split B.isSpace mechanismList then .ok plainMechanism
      else .error (.runtimeError "Broker does not support PLAIN SASL mechanism") := by
  unfold selectSaslMechanism
  cases h : (B.split B.isSpace mechanismList).find? (· = plainMechanism) with
  | none =>
    have hnot : plainMechanism ∉ B.split B.isSpace mechanismList := fun hmem => by
      simpa using List.find?_eq_none.mp h _ hmem
    rw [if_neg hnot]
    simp only [h]
  | some mechanism =>
    obtain rfl : mechanism = plainMechanism := by simpa using List.find?_some h
    rw [if_pos (List.mem_of_find?_eq_some h)]
    simp only [h]

/-- The tokens hold PLAIN exactly when it stands in the list by itself. -/
theorem plainMechanism_mem_iff (mechanismList : List UInt8) :
    plainMechanism ∈ B.split B.isSpace mechanismList ↔ Split.Delimited B.isSpace plainMechanism mechanismList := by
  rw [(B.split_pieces B.isSpace mechanismList).mem_iff]
  exact and_iff_right B.isSpace_plain

/-! ## The response -/

theorem getPlainResponse_eq_ok {username password r : List UInt8} :
    getPlainResponse username password = .ok r ↔
      (0 ∉ username ∧ 0 ∉ password) ∧ r = [0] ++ username ++ [0] ++ password := by
  unfold getPlainResponse
  split
  · rename_i h
    simp only [reduceCtorEq, false_iff]
    tauto
  · rename_i h
    rw [Except.ok.injEq, eq_comm]
    tauto

/-- The response falls into three parts at its zero bytes, the first of them empty. -/
theorem pieces_plainResponse {username password : List UInt8} (hu : 0 ∉ username) (hp : 0 ∉ password) :
    Split.Pieces (· == 0) ([0] ++ username ++ [0] ++ password) [[], username, password] := by
  have hnot : ∀ {s : List UInt8}, 0 ∉ s → ∀ b ∈ s, (b == 0) = false := by
    intro s hs b hb
    rw [beq_eq_false_iff_ne]
    rintro rfl
    exact hs hb
  have hshape : [0] ++ username ++ [0] ++ password = [] ++ 0 :: (username ++ 0 :: password) := by simp
  rw [hshape]
  exact Split.Pieces.cons (by simp) rfl (Split.Pieces.cons (hnot hu) rfl (Split.Pieces.last (hnot hp)))

/-- When the two calls succeed, and with what. -/
theorem response_eq_ok {mechanismList username password r : List UInt8} :
    response B mechanismList username password = .ok r ↔
      Split.Delimited B.isSpace plainMechanism mechanismList ∧ (0 ∉ username ∧ 0 ∉ password) ∧
        r = [0] ++ username ++ [0] ++ password := by
  rw [response, selectSaslMechanism_eq]
  by_cases h : Split.Delimited B.isSpace plainMechanism mechanismList
  · rw [if_pos ((plainMechanism_mem_iff _).mpr h)]
    change getSaslResponse plainMechanism username password = .ok r ↔ _
    rw [getSaslResponse, if_pos rfl, getPlainResponse_eq_ok, and_iff_right h]
  · rw [if_neg fun hmem => h ((plainMechanism_mem_iff _).mp hmem)]
    change Except.error _ = Except.ok r ↔ _
    simp only [reduceCtorEq, false_iff]
    tauto

end Sasl

end Amqpp
