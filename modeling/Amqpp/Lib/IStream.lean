import Mathlib.Data.List.Basic

/-!
# Readers over a finite input stream

An input stream is a buffer and the flag a failed read raises. Reading exactly the bytes that remain does not raise it;
reading past the end does, and looking ahead at the end does. A reader checks `good` after each read, so it either takes its
bytes or throws.

`Reads r bs a` says that the reader `r`, on a stream that opens with the bytes `bs`, takes exactly them and returns `a`,
whatever follows. `Parses r G` is the converse: whatever `r` accepts opens with bytes that `G` relates to the value; `Local
r` says that these bytes are all that `r` looks at. `Ends` says that loops get passes enough, `Extends` that two readers differ
where the first gives up only, `Throws E r` that every error of `r` satisfies `E`. All of them compose along the reader's own
structure.
-/

/-- Two fallible computations in a row that succeed. -/
theorem Except.bind_eq_ok {ε α β : Type} {x : Except ε α} {f : α → Except ε β} {b : β} :
    (x >>= f) = .ok b ↔ ∃ a, x = .ok a ∧ f a = .ok b := by
  cases x with
  | error e => simp [bind, Except.bind]
  | ok a => simp [bind, Except.bind]

/-- Two computations in a row that do not throw `e`. -/
theorem Except.bind_ne_error {ε α β : Type} {x : Except ε α} {f : α → Except ε β} {e : ε} (hx : x ≠ .error e)
    (hf : ∀ a, f a ≠ .error e) : (x >>= f) ≠ .error e := by
  cases x with
  | error e' => exact fun h => hx (congrArg Except.error (Except.error.inj h))
  | ok a => exact hf a

/-- The bytes not yet read, and the end-of-file flag. -/
structure IStream where
  buf : List UInt8
  eof : Bool
  deriving DecidableEq, Repr

namespace IStream

/-- A fresh stream over a string. -/
def ofString (b : List UInt8) : IStream := ⟨b, false⟩

/-- No read has failed so far. -/
def good (s : IStream) : Bool := !s.eof

/-- Read `n` bytes: all of them, or the bytes that remain and the flag. -/
def read (n : Nat) (s : IStream) : List UInt8 × IStream :=
  if s.eof then ([], s)
  else if n ≤ s.buf.length then (s.buf.take n, ⟨s.buf.drop n, false⟩)
  else (s.buf, ⟨[], true⟩)

/-- Look ahead: is there another byte? At the end the look itself raises the flag. -/
def peek (s : IStream) : Bool × IStream :=
  if s.eof then (false, s)
  else if s.buf = [] then (false, ⟨[], true⟩)
  else (true, s)

/-- Test the flag alone. -/
def notEof (s : IStream) : Bool × IStream := (!s.eof, s)

/-- A test that leaves the bytes alone, and leaves a stream it passes on good. -/
structure Tests (more : IStream → Bool × IStream) : Prop where
  buf : ∀ s, (more s).2.buf = s.buf
  good : ∀ s, (more s).1 = true → (more s).2 = .ofString s.buf

theorem tests_peek : Tests peek := by
  constructor <;> rintro ⟨buf, eof⟩ <;> cases eof <;> cases buf <;> simp [peek, ofString]

theorem tests_notEof : Tests notEof := by
  constructor <;> rintro ⟨buf, eof⟩ <;> cases eof <;> simp [notEof, ofString]

end IStream

/-- A reader: it takes bytes off the stream and returns a value, or throws. -/
abbrev Reader (ε α : Type) : Type := StateT IStream (Except ε) α

namespace Reader

variable {ε α β γ : Type}

@[simp] theorem pure_apply (a : α) (s : IStream) : (pure a : Reader ε α) s = .ok (a, s) := rfl

@[simp] theorem bind_apply (r : Reader ε α) (f : α → Reader ε β) (s : IStream) :
    (r >>= f) s = match r s with
      | .ok (a, s') => f a s'
      | .error e => .error e := by
  change (r s).bind _ = _
  cases r s <;> rfl

@[simp] theorem throw_apply (e : ε) (s : IStream) : (throw e : Reader ε α) s = .error e := rfl

theorem bind_of_ok {r : Reader ε α} {f : α → Reader ε β} {s s' : IStream} {a : α} (h : r s = .ok (a, s')) :
    (r >>= f) s = f a s' := by
  rw [bind_apply, h]

theorem bind_of_error {r : Reader ε α} {f : α → Reader ε β} {s : IStream} {e : ε} (h : r s = .error e) :
    (r >>= f) s = .error e := by
  rw [bind_apply, h]

/-- Two readers in a row that succeed. -/
theorem bind_eq_ok {r : Reader ε α} {f : α → Reader ε β} {s t : IStream} {b : β} :
    (r >>= f) s = .ok (b, t) ↔ ∃ a s', r s = .ok (a, s') ∧ f a s' = .ok (b, t) := by
  rw [bind_apply]
  rcases r s with e | ⟨a, s'⟩
  · simp
  · constructor
    · exact fun h => ⟨a, s', rfl, h⟩
    · rintro ⟨a', t', h, h'⟩
      cases h
      exact h'

/-- Read `n` bytes and throw `e` unless the stream is still good. -/
def exactly (n : Nat) (e : ε) : Reader ε (List UInt8) := fun s =>
  if (s.read n).2.good then .ok (s.read n) else .error e

/-- A computation that reads nothing. -/
def lift (x : Except ε α) : Reader ε α := fun s =>
  match x with
  | .ok a => .ok (a, s)
  | .error e => .error e

/-- Throw `e` unless the stream is good. -/
def check (e : ε) : Reader ε Unit := fun s => if s.good then .ok ((), s) else .error e

/-- Run a reader on a string of its own. -/
def onString (b : List UInt8) (r : Reader ε α) : Reader ε α := fun s =>
  match r (IStream.ofString b) with
  | .ok (a, _) => .ok (a, s)
  | .error e => .error e

/-- A reader with a proof about what it returns. -/
def attach {P : α → Prop} (r : Reader ε α) (h : ∀ s a t, r s = .ok (a, t) → P a) : Reader ε {a // P a} := fun s =>
  match hr : r s with
  | .ok (a, t) => .ok (⟨a, h s a t hr⟩, t)
  | .error e => .error e

/-- A `while` loop: test the stream, run the body on what was gathered so far. `stuck` stands for a loop that runs longer
than the passes it is given. -/
def whileM (more : IStream → Bool × IStream) (body : β → Reader ε β) (stuck : ε) : Nat → β → Reader ε β
  | 0, _ => fun _ => .error stuck
  | k + 1, acc => fun s =>
    if (more s).1 then (body acc >>= whileM more body stuck k) (more s).2 else .ok (acc, (more s).2)

/-- One pass of a loop. -/
theorem whileM_succ (more : IStream → Bool × IStream) (body : β → Reader ε β) (stuck : ε) (k : Nat) (acc : β)
    (s : IStream) :
    whileM more body stuck (k + 1) acc s =
      if (more s).1 then (body acc >>= whileM more body stuck k) (more s).2 else .ok (acc, (more s).2) := rfl

/-- A computation that reads nothing, and a reader, that succeed. -/
theorem lift_bind_eq_ok {x : Except ε α} {f : α → Reader ε β} {s t : IStream} {b : β} :
    (lift x >>= f) s = .ok (b, t) ↔ ∃ a, x = .ok a ∧ f a s = .ok (b, t) := by
  rw [bind_apply]
  cases x <;> simp [lift]

/-- A read on a good stream. -/
theorem exactly_ofString (n : Nat) (e : ε) (buf : List UInt8) :
    exactly n e (.ofString buf) =
      if n ≤ buf.length then .ok (buf.take n, .ofString (buf.drop n)) else .error e := by
  by_cases h : n ≤ buf.length <;> simp [exactly, IStream.read, IStream.ofString, IStream.good, h]

@[simp] theorem check_ofString (e : ε) (buf : List UInt8) : check e (.ofString buf) = .ok ((), .ofString buf) := rfl

/-- A read, and a reader, that succeed on a good stream. -/
theorem exactly_bind_eq_ok {n : Nat} {e : ε} {f : List UInt8 → Reader ε β} {buf : List UInt8} {t : IStream} {b : β} :
    (exactly n e >>= f) (.ofString buf) = .ok (b, t) ↔
      ∃ p rest, buf = p ++ rest ∧ p.length = n ∧ f p (.ofString rest) = .ok (b, t) := by
  rw [bind_apply, exactly_ofString]
  constructor
  · intro h
    by_cases hn : n ≤ buf.length
    · rw [if_pos hn] at h
      exact ⟨buf.take n, buf.drop n, (List.take_append_drop n buf).symm, List.length_take_of_le hn, h⟩
    · rw [if_neg hn] at h
      cases h
  · rintro ⟨p, rest, rfl, rfl, h⟩
    rw [if_pos (by simp), List.take_left, List.drop_left]
    exact h

/-- Reading in two chunks is reading at once. -/
theorem exactly_add (m n : Nat) (e : ε) (buf : List UInt8) :
    exactly (m + n) e (.ofString buf) =
      (exactly m e >>= fun a => exactly n e >>= fun b => pure (a ++ b)) (.ofString buf) := by
  rw [bind_apply, exactly_ofString, exactly_ofString]
  by_cases hm : m ≤ buf.length
  · rw [if_pos hm]
    simp only [bind_apply, exactly_ofString, List.length_drop]
    by_cases hn : m + n ≤ buf.length
    · rw [if_pos hn, if_pos (by omega), List.take_add, List.drop_drop]
      rfl
    · rw [if_neg hn, if_neg (by omega)]
  · rw [if_neg hm, if_neg (by omega)]

theorem attach_eq_ok {P : α → Prop} {r : Reader ε α} {h : ∀ s a t, r s = .ok (a, t) → P a} {s t : IStream} {x : {a // P a}} :
    attach r h s = .ok (x, t) ↔ r s = .ok (x.1, t) := by
  unfold attach
  split
  · rename_i a u hr
    constructor
    · intro he
      cases he
      exact hr
    · intro he
      obtain ⟨rfl, rfl⟩ := Prod.mk.inj (Except.ok.inj (hr.symm.trans he))
      rfl
  · rename_i e hr
    refine ⟨fun he => ?_, fun he => ?_⟩
    · cases he
    · cases hr.symm.trans he

/-- What is read has the length that was asked for. -/
theorem length_of_exactly {n : Nat} {e : ε} {s t : IStream} {b : List UInt8} (h : exactly n e s = .ok (b, t)) : b.length = n := by
  obtain ⟨buf, eof⟩ := s
  cases eof with
  | true => cases h
  | false =>
    change exactly n e (.ofString buf) = _ at h
    rw [exactly_ofString] at h
    split at h
    · rename_i hle
      cases h
      exact List.length_take_of_le hle
    · cases h

/-! ## What a reader takes -/

/-- On a good stream that opens with `bs`, the reader takes exactly `bs` and returns `a`. -/
def Reads (r : Reader ε α) (bs : List UInt8) (a : α) : Prop :=
  ∀ rest, r (.ofString (bs ++ rest)) = .ok (a, .ofString rest)

namespace Reads

theorem pure (a : α) : Reads (pure a : Reader ε α) [] a := fun _ => rfl

theorem attach {P : α → Prop} {r : Reader ε α} {h : ∀ s a t, r s = .ok (a, t) → P a} {bs : List UInt8} {x : {a // P a}}
    (hr : Reads r bs x.1) : Reads (attach r h) bs x :=
  fun rest => attach_eq_ok.mpr (hr rest)

/-- One reader after another takes one string after the other. -/
theorem bind {r : Reader ε α} {f : α → Reader ε β} {bs bs' : List UInt8} {a : α} {b : β} (h : Reads r bs a)
    (h' : Reads (f a) bs' b) : Reads (r >>= f) (bs ++ bs') b := by
  intro rest
  rw [List.append_assoc, bind_apply, h]
  exact h' rest

/-- A reader followed by a conversion. -/
theorem map {r : Reader ε α} {bs : List UInt8} {a : α} (h : Reads r bs a) (f : α → β) :
    Reads (r >>= fun x => Pure.pure (f x)) bs (f a) := by
  intro rest
  rw [bind_apply, h]
  rfl

theorem exactly {n : Nat} {bs : List UInt8} (h : bs.length = n) (e : ε) : Reads (exactly n e) bs bs := by
  intro rest
  rw [exactly_ofString, if_pos (by simp [h]), ← h, List.take_left, List.drop_left]

/-- A check on a good stream passes and takes nothing. -/
theorem check (e : ε) : Reads (check e) [] () := fun _ => rfl

theorem lift {x : Except ε α} {a : α} (h : x = .ok a) : Reads (lift x) [] a := by
  intro rest
  rw [h]
  rfl

/-- A computation that reads nothing, before a reader. -/
theorem lift_bind {x : Except ε α} {a : α} (h : x = .ok a) {f : α → Reader ε β} {bs : List UInt8} {b : β}
    (h' : Reads (f a) bs b) : Reads (Reader.lift x >>= f) bs b :=
  (Reads.lift h).bind h'

theorem onString {b : List UInt8} {r : Reader ε α} {a : α} {s : IStream} (h : r (.ofString b) = .ok (a, s)) :
    Reads (onString b r) [] a := by
  intro rest
  rw [Reader.onString, h]
  rfl

/-- A stream is read in one way: what two opening strings leave behind them, and their values, are the same. -/
theorem inj {r : Reader ε α} {bs bs' rest rest' : List UInt8} {a a' : α} (h : Reads r bs a) (h' : Reads r bs' a')
    (hb : bs ++ rest = bs' ++ rest') : a = a' ∧ rest = rest' := by
  have hrun := h rest
  rw [hb, h' rest'] at hrun
  cases hrun
  exact ⟨rfl, rfl⟩

end Reads

/-- What the reader accepts on a good stream opens with bytes that `G` relates to the value, and the stream stays good. -/
def Parses (r : Reader ε α) (G : List UInt8 → α → Prop) : Prop :=
  ∀ buf a s', r (.ofString buf) = .ok (a, s') → ∃ p rest, buf = p ++ rest ∧ s' = .ofString rest ∧ G p a

namespace Parses

theorem mono {r : Reader ε α} {G G' : List UInt8 → α → Prop} (h : Parses r G) (hG : ∀ p a, G p a → G' p a) :
    Parses r G' := by
  intro buf a s' hr
  obtain ⟨p, rest, hb, hs, hg⟩ := h buf a s' hr
  exact ⟨p, rest, hb, hs, hG p a hg⟩

theorem pure (a : α) : Parses (pure a : Reader ε α) (fun p b => p = [] ∧ b = a) := by
  intro buf b s' h
  rw [pure_apply] at h
  cases h
  exact ⟨[], buf, rfl, rfl, rfl, rfl⟩

theorem throw (e : ε) (G : List UInt8 → α → Prop) : Parses (throw e : Reader ε α) G := by
  intro buf b s' h
  cases h

/-- One reader after another accepts the concatenation. -/
theorem bind {r : Reader ε α} {f : α → Reader ε β} {G : List UInt8 → α → Prop} {G' : α → List UInt8 → β → Prop}
    (h : Parses r G) (h' : ∀ a, Parses (f a) (G' a)) :
    Parses (r >>= f) (fun p b => ∃ p₁ a p₂, p = p₁ ++ p₂ ∧ G p₁ a ∧ G' a p₂ b) := by
  intro buf b s' hr
  obtain ⟨a, t, ha, hb⟩ := bind_eq_ok.mp hr
  obtain ⟨p₁, rest₁, rfl, rfl, h₁⟩ := h buf a t ha
  obtain ⟨p₂, rest₂, rfl, rfl, h₂⟩ := h' a rest₁ b s' hb
  exact ⟨p₁ ++ p₂, rest₂, (List.append_assoc _ _ _).symm, rfl, p₁, a, p₂, rfl, h₁, h₂⟩

theorem exactly (n : Nat) (e : ε) : Parses (exactly n e) (fun p b => p = b ∧ p.length = n) := by
  intro buf b s' h
  rw [exactly_ofString] at h
  split at h
  · rename_i hn
    cases h
    exact ⟨buf.take n, buf.drop n, (List.take_append_drop n buf).symm, rfl, rfl, List.length_take_of_le hn⟩
  · cases h

theorem check (e : ε) : Parses (check e) (fun p _ => p = []) := by
  intro buf b s' h
  cases h
  exact ⟨[], buf, rfl, rfl, rfl⟩

theorem lift (x : Except ε α) : Parses (lift x) (fun p a => p = [] ∧ x = .ok a) := by
  intro buf a s' h
  cases x with
  | error e => cases h
  | ok b =>
    cases h
    exact ⟨[], buf, rfl, rfl, rfl, rfl⟩

theorem onString (b : List UInt8) (r : Reader ε α) :
    Parses (onString b r) (fun p a => p = [] ∧ ∃ s, r (.ofString b) = .ok (a, s)) := by
  intro buf a s' h
  rw [Reader.onString] at h
  rcases hr : r (.ofString b) with e | ⟨a', t⟩
  · rw [hr] at h
    cases h
  · rw [hr] at h
    cases h
    exact ⟨[], buf, rfl, rfl, rfl, t, rfl⟩

end Parses

/-- Whatever the reader accepts opens with bytes that are all it looks at: it takes them and returns the same value,
whatever follows. -/
def Local (r : Reader ε α) : Prop := Parses r (Reads r)

namespace Local

/-- A reader that accepts only bytes that it reads whatever follows them. -/
theorem of_parses {r : Reader ε α} {G : List UInt8 → α → Prop} (h : Parses r G) (hG : ∀ p a, G p a → Reads r p a) : Local r :=
  h.mono hG

/-- A string that the reader takes whole, it takes whatever follows. -/
theorem reads {r : Reader ε α} (h : Local r) {p : List UInt8} {a : α} (hp : r (.ofString p) = .ok (a, .ofString [])) : Reads r p a := by
  obtain ⟨p', rest, rfl, hrest, hread⟩ := h p a _ hp
  obtain rfl : rest = [] := (congrArg IStream.buf hrest).symm
  rwa [List.append_nil]

theorem pure (a : α) : Local (pure a : Reader ε α) := by
  refine of_parses (Parses.pure a) ?_
  rintro p b ⟨rfl, rfl⟩
  exact Reads.pure _

theorem throw (e : ε) : Local (throw e : Reader ε α) := Parses.throw e _

theorem bind {r : Reader ε α} {f : α → Reader ε β} (h : Local r) (h' : ∀ a, Local (f a)) : Local (r >>= f) := by
  refine of_parses (Parses.bind h h') ?_
  rintro p b ⟨p₁, a, p₂, rfl, h₁, h₂⟩
  exact h₁.bind h₂

/-- A reader followed by a conversion. -/
theorem map {r : Reader ε α} (h : Local r) (f : α → β) : Local (r >>= fun x => Pure.pure (f x)) := h.bind fun _ => pure _

theorem exactly (n : Nat) (e : ε) : Local (exactly n e) := by
  refine of_parses (Parses.exactly n e) ?_
  rintro p b ⟨rfl, hlen⟩
  exact Reads.exactly hlen e

theorem lift (x : Except ε α) : Local (lift x) := by
  refine of_parses (Parses.lift x) ?_
  rintro p a ⟨rfl, hx⟩
  exact Reads.lift hx

/-- What a reader on a string of its own does is up to the string. -/
theorem onString (b : List UInt8) (r : Reader ε α) : Local (onString b r) := by
  refine of_parses (Parses.onString b r) ?_
  rintro p a ⟨rfl, s, hr⟩
  exact Reads.onString hr

end Local

/-- On a good stream of at most `n` bytes the reader does not run out of passes. -/
def Ends (stuck : ε) (n : Nat) (r : Reader ε α) : Prop :=
  ∀ buf, buf.length ≤ n → r (.ofString buf) ≠ .error stuck

namespace Ends

variable {stuck : ε} {n m : Nat}

theorem mono {r : Reader ε α} (h : Ends stuck n r) (hm : m ≤ n) : Ends stuck m r :=
  fun buf hb => h buf (Nat.le_trans hb hm)

theorem pure (a : α) : Ends stuck n (pure a : Reader ε α) := by
  intro buf _ h
  cases h

theorem throw {e : ε} (he : e ≠ stuck) : Ends stuck n (throw e : Reader ε α) := by
  intro buf _ h
  exact he (Except.error.inj h)

/-- The second reader has the bytes the first one left. -/
theorem bind {r : Reader ε α} {f : α → Reader ε β} {G : List UInt8 → α → Prop} (h : Ends stuck n r) (hp : Parses r G)
    (h' : ∀ p a, G p a → p.length ≤ n → Ends stuck (n - p.length) (f a)) : Ends stuck n (r >>= f) := by
  intro buf hb he
  rcases hr : r (.ofString buf) with e | ⟨a, s⟩
  · rw [bind_of_error hr] at he
    exact h buf hb (hr.trans (congrArg Except.error (Except.error.inj he)))
  · rw [bind_of_ok hr] at he
    obtain ⟨p, rest, rfl, rfl, hg⟩ := hp buf a s hr
    rw [List.length_append] at hb
    exact h' p a hg (by omega) rest (by omega) he

/-- A reader followed by a conversion. -/
theorem map {r : Reader ε α} (h : Ends stuck n r) (f : α → β) : Ends stuck n (r >>= fun x => Pure.pure (f x)) := by
  intro buf hb he
  rcases hr : r (.ofString buf) with e | ⟨a, s⟩
  · rw [bind_of_error hr] at he
    exact h buf hb (hr.trans (congrArg Except.error (Except.error.inj he)))
  · rw [bind_of_ok hr] at he
    cases he

theorem exactly {e : ε} (he : e ≠ stuck) (k : Nat) : Ends stuck n (exactly k e) := by
  intro buf _ h
  rw [exactly_ofString] at h
  split at h
  · cases h
  · exact he (Except.error.inj h)

theorem check (e : ε) : Ends stuck n (check e) := by
  intro buf _ h
  cases h

theorem lift {x : Except ε α} (hx : x ≠ .error stuck) : Ends stuck n (lift x) := by
  intro buf _ h
  cases x with
  | ok a => cases h
  | error e => exact hx (congrArg Except.error (Except.error.inj h))

theorem onString {b : List UInt8} {r : Reader ε α} (h : Ends stuck b.length r) : Ends stuck n (onString b r) := by
  intro buf _ he
  rw [Reader.onString] at he
  rcases hr : r (.ofString b) with e | ⟨a, s⟩
  · rw [hr] at he
    exact h b (Nat.le_refl _) (hr.trans (congrArg Except.error (Except.error.inj he)))
  · rw [hr] at he
    cases he

end Ends

/-- Wherever `r` does not end in `stuck`, `r'` does what `r` does. -/
def Extends (stuck : ε) (r r' : Reader ε α) : Prop := ∀ s, r s ≠ .error stuck → r' s = r s

namespace Extends

variable {stuck : ε}

theorem refl (r : Reader ε α) : Extends stuck r r := fun _ _ => rfl

theorem trans {r r' r'' : Reader ε α} (h : Extends stuck r r') (h' : Extends stuck r' r'') : Extends stuck r r'' := by
  intro s hs
  have hr := h s hs
  rw [h' s (hr ▸ hs), hr]

/-- A reader that has no passes extends to any. -/
theorem throw (r : Reader ε α) : Extends stuck (throw stuck) r := fun _ hs => absurd rfl hs

theorem bind {r r' : Reader ε α} {f f' : α → Reader ε β} (h : Extends stuck r r') (h' : ∀ a, Extends stuck (f a) (f' a)) :
    Extends stuck (r >>= f) (r' >>= f') := by
  intro s hs
  rcases hr : r s with e | ⟨a, t⟩
  · rw [bind_of_error hr] at hs
    have hr' := (h s (by rw [hr]; exact fun he => hs (congrArg _ (Except.error.inj he)))).trans hr
    rw [bind_of_error hr, bind_of_error hr']
  · rw [bind_of_ok hr] at hs
    have hr' := (h s (by rw [hr]; exact fun he => by cases he)).trans hr
    rw [bind_of_ok hr, bind_of_ok hr']
    exact h' a t hs

/-- A reader followed by a conversion. -/
theorem map {r r' : Reader ε α} (h : Extends stuck r r') (f : α → β) :
    Extends stuck (r >>= fun x => Pure.pure (f x)) (r' >>= fun x => Pure.pure (f x)) :=
  h.bind fun _ => refl _

theorem onString (b : List UInt8) {r r' : Reader ε α} (h : Extends stuck r r') : Extends stuck (onString b r) (onString b r') := by
  intro s hs
  have hr : r (.ofString b) ≠ .error stuck := by
    intro he
    rw [Reader.onString, he] at hs
    exact hs rfl
  rw [Reader.onString, Reader.onString, h _ hr]

/-- A loop does the same when each of its passes does. -/
theorem whileM {more : IStream → Bool × IStream} {body body' : β → Reader ε β} (h : ∀ acc, Extends stuck (body acc) (body' acc))
    {e : ε} : ∀ k acc, Extends stuck (whileM more body e k acc) (whileM more body' e k acc) := by
  intro k
  induction k with
  | zero => exact fun acc s _ => rfl
  | succ k ih =>
    intro acc s hs
    rw [whileM_succ] at hs ⊢
    rw [whileM_succ]
    by_cases hm : (more s).1 = true
    · rw [if_pos hm] at hs ⊢
      rw [if_pos hm]
      exact (h acc).bind (ih ·) _ hs
    · rw [if_neg hm, if_neg hm]

end Extends

/-- Readers with more and more passes agree with each other as soon as they do not run out. -/
theorem Extends.add {r : Nat → Reader ε α} {stuck : ε} (h : ∀ n, Extends stuck (r n) (r (n + 1))) (n k : Nat) :
    Extends stuck (r n) (r (n + k)) := by
  induction k with
  | zero => exact refl _
  | succ k ih => exact ih.trans (h _)

/-- Two of them that do not run out agree. -/
theorem Extends.agree {r : Nat → Reader ε α} {stuck : ε} (h : ∀ n, Extends stuck (r n) (r (n + 1))) {n m : Nat} {s : IStream}
    (hn : r n s ≠ .error stuck) (hm : r m s ≠ .error stuck) : r n s = r m s := by
  -- Both agree with one that has the passes of both.
  have hleft := add h n m s hn
  rw [Nat.add_comm, add h m n s hm] at hleft
  exact hleft.symm

/-- What two of them return is the same. -/
theorem Extends.unique {r : Nat → Reader ε α} {stuck : ε} (h : ∀ n, Extends stuck (r n) (r (n + 1))) {n m : Nat} {s : IStream}
    {x y : α × IStream} (hx : r n s = .ok x) (hy : r m s = .ok y) : x = y := by
  have hagree := agree h (n := n) (m := m) (s := s) (by rw [hx]; exact fun he => by cases he) (by rw [hy]; exact fun he => by cases he)
  rw [hx, hy] at hagree
  exact Except.ok.inj hagree

/-- A reader that runs out where another goes on accepts what the other accepts. -/
theorem Parses.of_extends {r r' : Reader ε α} {stuck : ε} {G : List UInt8 → α → Prop} (h : Extends stuck r r') (hp : Parses r' G) :
    Parses r G := by
  intro buf a s hr
  refine hp buf a s ?_
  rw [h _ (by rw [hr]; exact fun he => by cases he), hr]

/-- Given one pass more than there are bytes, readers that do not run out then look only at the bytes they take, if each of
them does. -/
theorem Local.ofPasses {r : Nat → Reader ε α} {stuck : ε} (hlocal : ∀ n, Local (r n)) (hext : ∀ n, Extends stuck (r n) (r (n + 1)))
    (hends : ∀ n m, m < n → Ends stuck m (r n)) : Local (fun s => r (s.buf.length + 1) s) := by
  intro buf a s h
  obtain ⟨p, rest, rfl, rfl, hp⟩ := hlocal _ buf a s h
  refine ⟨p, rest, rfl, rfl, fun rest' => ?_⟩
  refine (Extends.agree hext (m := (IStream.ofString (p ++ rest)).buf.length + 1) ?_ ?_).trans (hp rest')
  · exact hends _ _ (Nat.lt_succ_self _) _ (Nat.le_refl _)
  · rw [hp rest']
    exact fun he => by cases he

/-- What such a reader takes, it takes with any number of passes that is more than the bytes it takes. -/
theorem Reads.ofPasses {r : Nat → Reader ε α} {stuck : ε} (hlocal : ∀ n, Local (r n)) (hext : ∀ n, Extends stuck (r n) (r (n + 1)))
    {p : List UInt8} {a : α} (h : Reads (fun s => r (s.buf.length + 1) s) p a) {n : Nat} (hn : p.length < n) : Reads (r n) p a := by
  have hread : r (p.length + 1) (.ofString p) = .ok (a, .ofString []) := by
    have h' := h []
    rwa [List.append_nil] at h'
  obtain ⟨k, rfl⟩ : ∃ k, n = p.length + 1 + k := ⟨n - (p.length + 1), by omega⟩
  have hmore := Extends.add hext (p.length + 1) k _ (by rw [hread]; exact fun he => by cases he)
  exact (hlocal _).reads (hmore.trans hread)

/-- Whatever the stream, an error of the reader satisfies `E`. -/
def Throws (E : ε → Prop) (r : Reader ε α) : Prop := ∀ s e, r s = .error e → E e

namespace Throws

variable {E : ε → Prop}

theorem pure (a : α) : Throws E (pure a : Reader ε α) := by
  intro s e h
  cases h

theorem throw {e : ε} (he : E e) : Throws E (throw e : Reader ε α) := by
  intro s e' h
  cases h
  exact he

theorem bind {r : Reader ε α} {f : α → Reader ε β} (h : Throws E r) (h' : ∀ a, Throws E (f a)) : Throws E (r >>= f) := by
  intro s e he
  rcases hr : r s with e' | ⟨a, t⟩
  · rw [bind_of_error hr] at he
    cases he
    exact h s e hr
  · rw [bind_of_ok hr] at he
    exact h' a t e he

theorem map {r : Reader ε α} (h : Throws E r) (f : α → β) : Throws E (r >>= fun x => Pure.pure (f x)) :=
  h.bind fun _ => pure _

theorem exactly (n : Nat) {e : ε} (he : E e) : Throws E (exactly n e) := by
  intro s e' h
  unfold Reader.exactly at h
  split at h
  · cases h
  · cases h
    exact he

theorem check {e : ε} (he : E e) : Throws E (check e) := by
  intro s e' h
  unfold Reader.check at h
  split at h
  · cases h
  · cases h
    exact he

theorem lift {x : Except ε α} (hx : ∀ e, x = .error e → E e) : Throws E (lift x) := by
  intro s e h
  cases x with
  | ok a => cases h
  | error e' =>
    cases h
    exact hx e rfl

theorem onString (b : List UInt8) {r : Reader ε α} (h : Throws E r) : Throws E (onString b r) := by
  intro s e he
  unfold Reader.onString at he
  rcases hr : r (.ofString b) with e' | ⟨a, t⟩
  · rw [hr] at he
    cases he
    exact h _ e hr
  · rw [hr] at he
    cases he

/-- A loop throws what a pass throws, or that it ran out of passes. -/
theorem whileM {more : IStream → Bool × IStream} {body : β → Reader ε β} {stuck : ε} (hs : E stuck)
    (h : ∀ acc, Throws E (body acc)) : ∀ k acc, Throws E (whileM more body stuck k acc) := by
  intro k
  induction k with
  | zero => exact fun _ => throw hs
  | succ k ih =>
    intro acc s e he
    rw [whileM_succ] at he
    split at he
    · exact (h acc).bind (ih ·) _ e he
    · cases he

end Throws

/-! ## Loops -/

section loops

variable {body : β → Reader ε β} {stuck : ε}

/-- A loop that looks ahead reads every chunk of the string, one pass for each, and ends at the end. -/
theorem whileM_peek_eq {step : β → γ → β} {xs : List γ} {chunks : List (List UInt8)}
    (h : List.Forall₂ (fun x c => c ≠ [] ∧ ∀ acc, Reads (body acc) c (step acc x)) xs chunks) :
    ∀ k acc, chunks.flatten.length < k →
      whileM IStream.peek body stuck k acc (.ofString chunks.flatten) = .ok (xs.foldl step acc, ⟨[], true⟩) := by
  induction h with
  | nil =>
    intro k acc hk
    obtain ⟨k, rfl⟩ : ∃ j, k = j + 1 := ⟨k - 1, by rw [List.flatten_nil, List.length_nil] at hk; omega⟩
    rfl
  | @cons x c xs cs hc _ ih =>
    intro k acc hk
    have hpos := List.length_pos_iff.mpr hc.1
    rw [List.flatten_cons, List.length_append] at hk
    obtain ⟨k, rfl⟩ : ∃ j, k = j + 1 := ⟨k - 1, by omega⟩
    have hpeek : IStream.peek (.ofString (c ++ cs.flatten)) = (true, .ofString (c ++ cs.flatten)) := by
      simp [IStream.peek, IStream.ofString, hc.1]
    rw [List.flatten_cons, whileM_succ, hpeek, if_pos rfl, bind_apply, hc.2 acc, List.foldl_cons]
    exact ih k _ (by omega)

variable {more : IStream → Bool × IStream}

/-- What every pass of a loop keeps, as a relation between the bytes left and the value gathered, holds when it ends. -/
theorem whileM_invariant (hmore : IStream.Tests more) (I : List UInt8 → β → Prop)
    (hbody : ∀ acc buf b s', I buf acc → body acc (.ofString buf) = .ok (b, s') → I s'.buf b) :
    ∀ k acc s b s', I s.buf acc → whileM more body stuck k acc s = .ok (b, s') → I s'.buf b := by
  intro k
  induction k with
  | zero => intro acc s b s' _ h; cases h
  | succ k ih =>
    intro acc s b s' hi h
    rw [whileM_succ] at h
    by_cases hm : (more s).1 = true
    · rw [if_pos hm, hmore.good s hm] at h
      obtain ⟨acc', t, h₁, h₂⟩ := bind_eq_ok.mp h
      exact ih acc' t b s' (hbody acc _ acc' t hi h₁) h₂
    · rw [if_neg hm] at h
      cases h
      exact hmore.buf s ▸ hi

/-- A loop on `!eof` whose body leaves the stream good never ends normally: it throws. -/
theorem whileM_notEof_ne_ok (hbody : ∀ acc buf b s', body acc (.ofString buf) = .ok (b, s') → s' = .ofString s'.buf) :
    ∀ k acc buf r, whileM IStream.notEof body stuck k acc (.ofString buf) ≠ .ok r := by
  intro k
  induction k with
  | zero => intro acc buf r h; cases h
  | succ k ih =>
    intro acc buf r h
    obtain ⟨b, t, h₁, h₂⟩ := bind_eq_ok.mp h
    rw [hbody acc buf b t h₁] at h₂
    exact ih b t.buf r h₂

/-- It reads every chunk of the string, one pass for each, and throws what a pass throws at the end. -/
theorem whileM_notEof_eq_error {step : β → γ → β} {xs : List γ} {chunks : List (List UInt8)} {e : ε}
    (hend : ∀ acc, body acc (.ofString []) = .error e)
    (h : List.Forall₂ (fun c x => c ≠ [] ∧ ∀ acc, Reads (body acc) c (step acc x)) chunks xs) :
    ∀ k acc, chunks.flatten.length < k → whileM IStream.notEof body stuck k acc (.ofString chunks.flatten) = .error e := by
  induction h with
  | nil =>
    intro k acc hk
    obtain ⟨k, rfl⟩ : ∃ j, k = j + 1 := ⟨k - 1, by rw [List.flatten_nil, List.length_nil] at hk; omega⟩
    exact bind_of_error (hend acc)
  | @cons c x cs xs hc _ ih =>
    intro k acc hk
    have hpos := List.length_pos_iff.mpr hc.1
    rw [List.flatten_cons, List.length_append] at hk
    obtain ⟨k, rfl⟩ : ∃ j, k = j + 1 := ⟨k - 1, by omega⟩
    have hmore : IStream.notEof (.ofString (c ++ cs.flatten)) = (true, .ofString (c ++ cs.flatten)) := rfl
    rw [List.flatten_cons, whileM_succ, hmore, if_pos rfl, bind_of_ok (hc.2 acc cs.flatten)]
    exact ih k _ (by omega)

/-- A loop whose body takes at least `m` bytes has passes enough when `m` bytes for each of them are more than there are. -/
theorem ends_whileM_of_le (hmore : IStream.Tests more) {n m : Nat} (hbody : ∀ acc, Ends stuck n (body acc))
    (hless : ∀ acc, Parses (body acc) (fun p _ => m ≤ p.length)) {k : Nat} (hk : n < m * k) (acc : β) :
    Ends stuck n (whileM more body stuck k acc) := by
  suffices h : ∀ k acc s, s.buf.length < m * k → s.buf.length ≤ n → whileM more body stuck k acc s ≠ .error stuck from
    fun buf hb => h k acc (.ofString buf) (Nat.lt_of_le_of_lt hb hk) hb
  intro k
  induction k with
  | zero => intro acc s hk; exact absurd hk (Nat.not_lt_zero _)
  | succ k ih =>
    intro acc s hk hn h
    rw [whileM_succ] at h
    by_cases hm : (more s).1 = true
    · rw [if_pos hm, hmore.good s hm, bind_apply] at h
      rcases hb : body acc (.ofString s.buf) with e | ⟨b, t⟩
      · rw [hb] at h
        exact hbody acc s.buf hn (hb.trans h)
      · rw [hb] at h
        obtain ⟨p, rest, hbuf, rfl, hp⟩ := hless acc s.buf b t hb
        have hlen : s.buf.length = p.length + rest.length := by rw [hbuf, List.length_append]
        rw [Nat.mul_succ] at hk
        exact ih b (.ofString rest) (show rest.length < m * k by omega) (show rest.length ≤ n by omega) h
    · rw [if_neg hm] at h
      cases h

/-- A loop whose body takes at least a byte has passes enough when it is given more of them than there are bytes. -/
theorem ends_whileM (hmore : IStream.Tests more) {n : Nat} (hbody : ∀ acc, Ends stuck n (body acc))
    (hless : ∀ acc, Parses (body acc) (fun p _ => p ≠ [])) {k : Nat} (hk : n < k) (acc : β) :
    Ends stuck n (whileM more body stuck k acc) :=
  ends_whileM_of_le hmore hbody (fun acc => (hless acc).mono fun _ _ hp => List.length_pos_iff.mpr hp) (m := 1) (by omega) acc

end loops

end Reader
