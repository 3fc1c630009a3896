import Amqpp.Connection.Closing
import Amqpp.Connection.Effects
import Amqpp.Frame.Phases

/-!
# The asynchronous read loop

Three handlers and one builder read frames as `read_frame` does: the frames dispatched so far are the ones that
`read_frame`, called again and again, returns on the bytes received so far, and the loop ends with the exception that
`read_frame` ends with.
-/

namespace Amqpp

/-- The bytes a completed read delivers. -/
def ConnectionEvent.received : ConnectionEvent → List UInt8
  | .readDone _ (some bytes) => bytes
  | _ => []

/-- The frame that is dispatched by a call. -/
def Call.dispatched : Call → Option Frame
  | processFrame _ fr | handleDeadChannelFrame fr => some fr
  | beginWriteFrame _ | closeAsync _ => none

/-- The frames passed to `dispatch_frame` so far. -/
def ConnectionManager.dispatched (s : ConnectionManager) : List Frame := s.calls.filterMap Call.dispatched

/-- `dispatch_frame` returns normally: a handler that an exception leaves has dispatched nothing. -/
def DispatchReturns (Γ : Env) (r : ConnectionRun) (e : ConnectionEvent) : Prop :=
  ∀ r', r.step Γ e = some r' → r'.escaped.isSome → r'.manager.dispatched = r.manager.dispatched

/-- The read loop after the events `es`, against `read_frame` on the bytes received. -/
structure RefinesReadFrame (Γ : Env) (es : List ConnectionEvent) (r : ConnectionRun) : Prop where
  /-- At most one read is outstanding. -/
  one : r.manager.reads.length ≤ 1
  /-- `get_body_buffer` was called on a builder that announces at least one byte, so its `size - 1` is one less than the
  size. -/
  size : ∀ n m, .body n m ∈ r.manager.reads → ∃ type channel size last,
    r.manager.builder.header = FrameBuilder.headerBytes Γ.constants type channel size last ∧ 1 ≤ size.toNat ∧ n + 1 = size.toNat
  /-- After a read that failed none is started. -/
  stopped : ∀ i, .readDone i none ∈ es → r.manager.reads = []
  /-- As long as no read failed and no exception ended the run, one is outstanding. -/
  going : r.escaped = none → (∀ i, .readDone i none ∉ es) → r.manager.reads.length = 1
  /-- The frames dispatched are those that `read_frame` returns. -/
  frames : ∀ k b, (es.flatMap ConnectionEvent.received).length ≤ k →
    (readFrames Γ.constants k b (es.flatMap ConnectionEvent.received)).1 = r.manager.dispatched
  /-- The loop ends on a malformed frame, and then `read_frame` fails on that frame in the same way. -/
  malformed : ∀ k b ex, (es.flatMap ConnectionEvent.received).length ≤ k →
    ((∃ i bytes, r.escaped = some (.readDone i (some bytes), ex)) ↔
      readFrame Γ.constants b (.ofString (readFrames Γ.constants k b (es.flatMap ConnectionEvent.received)).2) = .error ex ∧
        ex ≠ .endOfFile)

namespace ReadLoopAux

open ConnectionManager

variable {Γ : Env}

/-- The builder and the read in flight, when `left` has come of the frame that is being read. -/
inductive Reading (K : Constants) (left : List UInt8) (m : ConnectionManager) : Prop where
  | header (b : FrameBuilder) (hreads : m.reads = [.header]) (hbuilder : m.builder = b.reset) (hleft : left = [])
  | body (b : FrameBuilder) (n : Nat) (hreads : m.reads = [.body n 1]) (hlen : left.length = 8)
      (hrequired : (b.ofHeader left).isBodyReadRequired K = .ok (true, m.builder))
      (hbuffer : m.builder.getBodyBuffer K = .ok ((n, 1), m.builder))
  | stopped (hreads : m.reads = [])

/-- No malformed frame has ended the run. -/
def Quiet (r : ConnectionRun) : Prop := ∀ i bytes ex, r.escaped ≠ some (.readDone i (some bytes), ex)

/-- What the read loop keeps. The bytes received are those of the frames dispatched and `left`, on which `read_frame` fails:
for want of bytes, or with the exception that ended the run. -/
structure Loop (Γ : Env) (es : List ConnectionEvent) (r : ConnectionRun) : Prop where
  stopped : ∀ i, .readDone i none ∈ es → r.manager.reads = []
  going : r.escaped = none → (∀ i, .readDone i none ∉ es) → r.manager.reads.length = 1
  short : ∀ f ∈ r.manager.dispatched, f.payload.length < 2 ^ 32
  left : ∃ left ex, es.flatMap ConnectionEvent.received = r.manager.dispatched.flatMap (·.sequence Γ.constants) ++ left ∧
    (∀ b, readFrame Γ.constants b (.ofString left) = .error ex) ∧ Reading Γ.constants left r.manager ∧
    (Quiet r ∧ ex = .endOfFile ∨ ∃ i bytes, r.escaped = some (.readDone i (some bytes), ex) ∧ ex ≠ .endOfFile)

theorem quiet_of_escaped {r : ConnectionRun} (h : r.escaped = none) : Quiet r := by
  intro i bytes ex hex
  rw [h] at hex
  cases hex

theorem loop_init (Γ : Env) : Loop Γ [] (connectionMachine Γ).init :=
  ⟨fun _ hi => absurd hi List.not_mem_nil, fun _ _ => rfl, fun _ hf => absurd hf List.not_mem_nil, [], .endOfFile, rfl,
    readFrame_nil Γ.constants, .header _ rfl rfl rfl, Or.inl ⟨quiet_of_escaped rfl, rfl⟩⟩

/-! ## Handlers that do not read -/

theorem dispatched_of_wrote {s t : ConnectionManager} (h : s.Wrote t) : t.dispatched = s.dispatched :=
  h.filterMap_calls _ fun _ => rfl

theorem dispatched_of_toldClosing {s t : ConnectionManager} (h : s.ToldClosing t) : t.dispatched = s.dispatched :=
  h.filterMap_calls _ fun _ => rfl

/-- The reads, the builder and the frames dispatched are the same. -/
structure Unread (s t : ConnectionManager) : Prop where
  reads : t.reads = s.reads
  builder : t.builder = s.builder
  dispatched : t.dispatched = s.dispatched

theorem unread_of_effect {s : ConnectionManager} {e : ConnectionEvent} {r : ConnectionRun} (he : ∀ i bytes, e ≠ .readDone i bytes)
    (h : Effect Γ s e r) : Unread s r.manager := by
  cases h with
  | wrote _ h => exact ⟨h.reads, h.builder, dispatched_of_wrote h⟩
  | opening h =>
    cases h with
    | outOfChannels h hr => exact ⟨by rw [hr], by rw [hr], by rw [hr]; rfl⟩
    | opened h hopen ht hr => exact ⟨by rw [hr]; exact ht.reads, by rw [hr]; exact ht.builder, by rw [hr]; exact (dispatched_of_wrote ht).trans rfl⟩
    | lost h hopen e hr => exact ⟨by rw [hr], by rw [hr], by rw [hr]; rfl⟩
    | thrown h hopen he hr => exact ⟨by rw [hr]; rfl, by rw [hr]; rfl, by rw [hr]; rfl⟩
  | received h => exact absurd rfl (he _ _)
  | writeFailed h => exact ⟨h.reads, h.builder, (dispatched_of_toldClosing h).trans rfl⟩
  | readFailed h => exact absurd rfl (he _ _)
  | expired hc hr => exact ⟨by rw [hr], by rw [hr], by rw [hr]; rfl⟩
  | requested hc hd hr => exact ⟨by rw [hr]; rfl, by rw [hr]; rfl, by rw [hr]; rfl⟩

theorem Reading.of_unread {K : Constants} {left : List UInt8} {s t : ConnectionManager} (h : Reading K left s) (hst : Unread s t) :
    Reading K left t := by
  cases h with
  | header b hreads hbuilder hleft => exact .header b (hst.reads.trans hreads) (hst.builder.trans hbuilder) hleft
  | body b n hreads hlen hrequired hbuffer =>
    exact .body b n (hst.reads.trans hreads) hlen (hst.builder ▸ hrequired) (hst.builder ▸ hbuffer)
  | stopped hreads => exact .stopped (hst.reads.trans hreads)

/-- Where no exception has ended the run, `read_frame` fails for want of bytes. -/
theorem Loop.wanting {es : List ConnectionEvent} {r : ConnectionRun} (h : Loop Γ es r) (hnone : r.escaped = none) :
    ∃ left, es.flatMap ConnectionEvent.received = r.manager.dispatched.flatMap (·.sequence Γ.constants) ++ left ∧
      (∀ b, readFrame Γ.constants b (.ofString left) = .error .endOfFile) ∧ Reading Γ.constants left r.manager := by
  obtain ⟨left, ex, hleft, hfail, hreading, ⟨-, rfl⟩ | ⟨i, bytes, hex, -⟩⟩ := h.left
  · exact ⟨left, hleft, hfail, hreading⟩
  · rw [hnone] at hex
    cases hex

/-- A step that is no completion of a read. -/
theorem loop_other {es : List ConnectionEvent} {r r' : ConnectionRun} {e : ConnectionEvent} (hr : Loop Γ es r)
    (hnone : r.escaped = none) (he : ∀ i bytes, e ≠ .readDone i bytes) (h : ConnectionRun.next Γ r.manager e = some r') :
    Loop Γ (es ++ [e]) r' := by
  obtain ⟨left, hleft, hfail, hreading⟩ := hr.wanting hnone
  have hunread := unread_of_effect he (ConnectionRun.effect_of_next h)
  have hreceived : e.received = [] := by
    cases e with
    | readDone i bytes => exact absurd rfl (he i bytes)
    | _ => rfl
  refine ⟨fun i hi => ?_, fun _ hnofail => ?_, fun f hf => hr.short f (hunread.dispatched ▸ hf), left, .endOfFile, ?_, hfail,
    hreading.of_unread hunread, Or.inl ⟨fun i bytes ex hex => ?_, rfl⟩⟩
  · rw [hunread.reads]
    rcases List.mem_append.mp hi with hi | hi
    · exact hr.stopped i hi
    · exact absurd (List.mem_singleton.mp hi).symm (he i none)
  · rw [hunread.reads]
    exact hr.going hnone fun i hi => hnofail i (List.mem_append_left _ hi)
  · rw [List.flatMap_append, List.flatMap_singleton, hreceived, List.append_nil, hunread.dispatched, hleft]
  · exact he i (some bytes) (ConnectionRun.escaped_of_next h hex).symm

/-! ## A read that fails -/

theorem loop_failed {es : List ConnectionEvent} {r r' : ConnectionRun} {i : Nat} (hr : Loop Γ es r) (hnone : r.escaped = none)
    (h : ConnectionRun.next Γ r.manager (.readDone i none) = some r') : Loop Γ (es ++ [.readDone i none]) r' := by
  obtain ⟨left, hleft, hfail, hreading⟩ := hr.wanting hnone
  have hclosing : ToldClosing { r.manager with reads := r.manager.reads.eraseIdx i, state := .closedState } r'.manager := by
    cases ConnectionRun.effect_of_next h with
    | wrote he _ => cases he
    | readFailed h => exact h
  have hreads : r'.manager.reads = [] := by
    rw [hclosing.reads]
    have hi : r.manager.reads[i]? ≠ none := fun hi => by
      simp only [ConnectionRun.next, hi] at h
      cases h
    have hlt : i < r.manager.reads.length := Nat.lt_of_not_le fun hle => hi (List.getElem?_eq_none hle)
    cases hreading with
    | header b hreads _ _ =>
      rw [hreads] at hlt ⊢
      obtain rfl : i = 0 := Nat.lt_one_iff.mp hlt
      rfl
    | body b n hreads _ _ _ =>
      rw [hreads] at hlt ⊢
      obtain rfl : i = 0 := Nat.lt_one_iff.mp hlt
      rfl
    | stopped hreads =>
      rw [hreads] at hlt
      cases hlt
  have hdispatched : r'.manager.dispatched = r.manager.dispatched := (dispatched_of_toldClosing hclosing).trans rfl
  refine ⟨fun _ _ => hreads, fun _ hnofail => absurd (List.mem_append_right _ (List.mem_singleton_self _)) (hnofail i),
    fun f hf => hr.short f (hdispatched ▸ hf), left, .endOfFile, ?_, hfail, .stopped hreads, Or.inl ⟨fun j bytes ex hex => ?_, rfl⟩⟩
  · rw [List.flatMap_append, hdispatched, hleft]
    exact List.append_nil _
  · cases ConnectionRun.escaped_of_next h hex

/-! ## A read that succeeds -/

theorem not_failed_snoc {es : List ConnectionEvent} {i : Nat} {bytes : List UInt8} (h : ∀ j, .readDone j none ∉ es) (j : Nat) :
    .readDone j none ∉ es ++ [.readDone i (some bytes)] := by
  intro hj
  rcases List.mem_append.mp hj with hj | hj
  · exact h j hj
  · cases List.mem_singleton.mp hj

/-- A dispatched frame. -/
theorem dispatched_of_dispatched {fr : Frame} {s t : ConnectionManager} (h : Dispatched Γ fr s t) :
    t.dispatched = s.dispatched ++ [fr] ∧ t.reads = s.reads := by
  have hframe : (s.noteFrame fr).dispatched = s.dispatched ++ [fr] := List.filterMap_append
  have hdead : (s.noteDead fr).dispatched = s.dispatched ++ [fr] := List.filterMap_append
  cases h with
  | channel hc hd ht =>
    subst ht
    exact ⟨hframe, rfl⟩
  | channel0 hl ht =>
    subst ht
    exact ⟨hframe, rfl⟩
  | dead hl ht => exact ⟨(dispatched_of_wrote ht).trans hdead, ht.reads⟩

/-- The handler of a read that has a whole frame, well formed or not: `left` are the bytes of that frame. -/
theorem loop_receiveFrame {es : List ConnectionEvent} {r r' : ConnectionRun} {i : Nat} {bytes : List UInt8} {b : FrameBuilder}
    (left : List UInt8) (hr : Loop Γ es r) (hreturns : r'.escaped.isSome → r'.manager.dispatched = r.manager.dispatched)
    (hstopped : ∀ j, .readDone j none ∉ es)
    (hleft : es.flatMap ConnectionEvent.received ++ bytes = r.manager.dispatched.flatMap (·.sequence Γ.constants) ++ left)
    (hread : ∀ b', readFrame Γ.constants b' (.ofString left) = finishFrame Γ.constants b (.ofString []))
    (h : ConnectionRun.afterHandler (.readDone i (some bytes)) (receiveFrame Γ { r.manager with reads := [], builder := b }) =
      some r') : Loop Γ (es ++ [.readDone i (some bytes)]) r' := by
  have hreceived : (es ++ [ConnectionEvent.readDone i (some bytes)]).flatMap ConnectionEvent.received =
      es.flatMap ConnectionEvent.received ++ bytes := by
    rw [List.flatMap_append, List.flatMap_singleton]
    rfl
  have hnofail : ∀ j, ConnectionEvent.readDone j none ∈ es ++ [.readDone i (some bytes)] → r'.manager.reads = [] := fun j hj =>
    absurd hj (not_failed_snoc hstopped j)
  rcases hcreate : b.createFrame Γ.constants with ex | f
  · -- The frame is malformed: the exception leaves the handler before anything is dispatched.
    have hmalformed : receiveFrame Γ { r.manager with reads := [], builder := b } =
        .throws ex { r.manager with reads := [], builder := b } := by
      unfold receiveFrame
      simp only [Prog.bind_apply, Prog.get_apply, hcreate, Prog.lift_error]
    rw [hmalformed] at h
    cases h
    refine ⟨hnofail, (fun hnone => by cases hnone), hr.short, left, ex, hreceived.trans hleft, fun b' => ?_, .stopped rfl,
      Or.inr ⟨i, bytes, rfl, ?_⟩⟩
    · rw [hread, finishFrame_of_error Γ.constants hcreate]
    · rintro rfl
      exact createFrame_ne_endOfFile Γ.constants b hcreate
  · have hframe : receiveFrame Γ { r.manager with reads := [], builder := b } =
        (dispatchFrame Γ f >>= fun _ => beginFrameRead) { r.manager with reads := [], builder := b } := by
      unfold receiveFrame
      simp only [Prog.bind_apply, Prog.get_apply, hcreate, Prog.lift_ok]
    -- What was read is the bytes of the frame.
    obtain ⟨p, rest, hp, hs, hshort, hsequence⟩ := parses_readFrame Γ.constants b left (f, b) (.ofString [])
      ((hread b).trans (finishFrame_of_ok Γ.constants hcreate _))
    cases hs
    rw [List.append_nil] at hp
    have hdispatch := dispatched_dispatchFrame Γ f { r.manager with reads := [], builder := b }
    rw [hframe, Prog.bind_apply] at h
    cases ht : dispatchFrame Γ f { r.manager with reads := [], builder := b } with
    | ok a t =>
      rw [ht] at h hdispatch
      cases h
      obtain ⟨hdispatched, hreads⟩ := dispatched_of_dispatched hdispatch
      have hdispatched' : ({ t with builder := t.builder.reset, reads := t.reads ++ [.header] } : ConnectionManager).dispatched =
          r.manager.dispatched ++ [f] := hdispatched
      have hread : t.reads ++ [AsyncRead.header] = [.header] := by rw [hreads]; rfl
      refine ⟨hnofail, fun _ _ => congrArg List.length hread, fun g hg => ?_, [], .endOfFile, ?_, readFrame_nil Γ.constants,
        .header t.builder hread rfl rfl, Or.inl ⟨quiet_of_escaped rfl, rfl⟩⟩
      · rw [hdispatched'] at hg
        rcases List.mem_append.mp hg with hg | hg
        · exact hr.short g hg
        · rw [List.mem_singleton.mp hg]
          exact hshort
      · rw [hreceived, hleft, hdispatched', List.flatMap_append, List.flatMap_singleton, List.append_nil, hp, hsequence]
    | throws ex t =>
      rw [ht] at h hdispatch
      cases h
      have hsame := hreturns rfl
      obtain ⟨hdispatched, -⟩ := dispatched_of_dispatched hdispatch
      rw [hsame] at hdispatched
      exact absurd (congrArg List.length hdispatched) (by simp [dispatched])
    | undefined =>
      rw [ht] at h
      cases h

/-- The read of a header. -/
theorem loop_header {es : List ConnectionEvent} {r r' : ConnectionRun} {bytes : List UInt8} {b : FrameBuilder} (hr : Loop Γ es r)
    (hreturns : r'.escaped.isSome → r'.manager.dispatched = r.manager.dispatched) (hstopped : ∀ j, .readDone j none ∉ es)
    (hleft : es.flatMap ConnectionEvent.received = r.manager.dispatched.flatMap (·.sequence Γ.constants)) (hlen : bytes.length = 8)
    (h : ConnectionRun.afterHandler (.readDone 0 (some bytes))
      (onFrameHeaderRead Γ true { r.manager with reads := [], builder := b.ofHeader bytes }) = some r') :
    Loop Γ (es ++ [.readDone 0 (some bytes)]) r' := by
  have hreceived : (es ++ [ConnectionEvent.readDone 0 (some bytes)]).flatMap ConnectionEvent.received =
      r.manager.dispatched.flatMap (·.sequence Γ.constants) ++ bytes := by
    rw [List.flatMap_append, List.flatMap_singleton, hleft]
    rfl
  have hnofail : ∀ j, ConnectionEvent.readDone j none ∈ es ++ [.readDone 0 (some bytes)] → r'.manager.reads = [] := fun j hj =>
    absurd hj (not_failed_snoc hstopped j)
  unfold onFrameHeaderRead at h
  rcases hrequired : (b.ofHeader bytes).isBodyReadRequired Γ.constants with ex | ⟨required, b₁⟩
  · -- The header is malformed.
    simp only [if_true, Prog.bind_apply, Prog.get_apply, hrequired, Prog.lift_error] at h
    cases h
    refine ⟨hnofail, (fun hnone => by cases hnone), hr.short, bytes, ex, hreceived, readFrame_of_error Γ.constants hlen hrequired,
      .stopped rfl, Or.inr ⟨0, bytes, rfl, ?_⟩⟩
    rintro rfl
    exact isBodyReadRequired_ne_endOfFile Γ.constants b bytes hrequired
  · simp only [if_true, Prog.bind_apply, Prog.get_apply, hrequired, Prog.lift_ok, Prog.modify_apply, Prog.ite_apply] at h
    cases required with
    | true =>
      obtain ⟨type, channel, size, last, -, -, hbuffer⟩ := size_of_required Γ.constants hlen hrequired
      unfold beginBodyRead at h
      simp only [if_true, Prog.bind_apply, Prog.get_apply, hbuffer, Prog.lift_ok, Prog.modify_apply] at h
      cases h
      exact ⟨hnofail, fun _ _ => rfl, hr.short, bytes, .endOfFile, hreceived, readFrame_of_body_missing Γ.constants hlen hrequired hbuffer,
        .body b _ rfl hlen hrequired hbuffer, Or.inl ⟨quiet_of_escaped rfl, rfl⟩⟩
    | false =>
      refine loop_receiveFrame bytes (b := b₁) hr hreturns hstopped ?_ (readFrame_of_empty Γ.constants hlen hrequired) h
      rw [hleft]

/-- A completed read with its bytes. -/
theorem loop_read {es : List ConnectionEvent} {r r' : ConnectionRun} {i : Nat} {bytes : List UInt8} (hr : Loop Γ es r)
    (hnone : r.escaped = none) (hreturns : r'.escaped.isSome → r'.manager.dispatched = r.manager.dispatched)
    (h : ConnectionRun.next Γ r.manager (.readDone i (some bytes)) = some r') : Loop Γ (es ++ [.readDone i (some bytes)]) r' := by
  obtain ⟨left, hleft, hfail, hreading⟩ := hr.wanting hnone
  obtain ⟨rd, hrd⟩ : ∃ rd, r.manager.reads[i]? = some rd := by
    rcases hi : r.manager.reads[i]? with _ | rd
    · simp only [ConnectionRun.next, hi] at h
      cases h
    · exact ⟨rd, rfl⟩
  have hstopped : ∀ j, .readDone j none ∉ es := by
    intro j hj
    rw [hr.stopped j hj] at hrd
    cases hrd
  simp only [ConnectionRun.next, hrd] at h
  split at h
  · cases h
  · rename_i hsize
    rw [not_not] at hsize
    have hlt := (List.getElem?_eq_some_iff.mp hrd).1
    cases hreading with
    | header b hreads hbuilder hempty =>
      rw [hreads] at hlt hrd
      obtain rfl : i = 0 := Nat.lt_one_iff.mp hlt
      cases hrd
      rw [hempty, List.append_nil] at hleft
      refine loop_header (b := b) hr hreturns hstopped hleft hsize ?_
      rw [hreads] at h
      rw [← h, hbuilder]
      rfl
    | body b n hreads hlen hrequired hbuffer =>
      rw [hreads] at hlt hrd
      obtain rfl : i = 0 := Nat.lt_one_iff.mp hlt
      cases hrd
      refine loop_receiveFrame (left ++ bytes) (b := r.manager.builder.fillBody n bytes) hr hreturns hstopped ?_
        (readFrame_of_body Γ.constants hlen hrequired hbuffer hsize) ?_
      · rw [hleft, List.append_assoc]
      · rw [hreads] at h
        exact h
    | stopped hreads =>
      rw [hreads] at hrd
      cases hrd

/-! ## Runs -/

theorem loop_of_run {es : List ConnectionEvent} : ∀ {r : ConnectionRun}, (connectionMachine Γ).run es = some r →
    (connectionMachine Γ).Guarded (DispatchReturns Γ) es → Loop Γ es r := by
  induction es using List.reverseRecOn with
  | nil =>
    intro r h _
    cases h
    exact loop_init Γ
  | append_singleton es e ih =>
    intro r' h hguarded
    obtain ⟨r, hrun, hstep⟩ := Machine.run_snoc_eq_some _ |>.mp h
    obtain ⟨hes, he⟩ := Machine.guarded_snoc.mp hguarded
    have hr := ih hrun hes
    have hreturns : r'.escaped.isSome → r'.manager.dispatched = r.manager.dispatched := he r hrun r' hstep
    obtain ⟨hnone, hnext⟩ := ConnectionRun.next_of_step hstep
    cases e with
    | readDone i bytes =>
      cases bytes with
      | none => exact loop_failed hr hnone hnext
      | some bytes => exact loop_read hr hnone hreturns hnext
    | _ => exact loop_other hr hnone nofun hnext

/-- In a run that goes on, `dispatch_frame` has returned normally. -/
theorem guarded_of_escaped_eq_none {es : List ConnectionEvent} : ∀ {r : ConnectionRun}, (connectionMachine Γ).run es = some r →
    r.escaped = none → (connectionMachine Γ).Guarded (DispatchReturns Γ) es := by
  induction es using List.reverseRecOn with
  | nil => exact fun _ _ => Machine.guarded_nil _
  | append_singleton es e ih =>
    intro r' h hnone
    obtain ⟨r, hrun, hstep⟩ := Machine.run_snoc_eq_some _ |>.mp h
    refine Machine.guarded_snoc.mpr ⟨ih hrun (ConnectionRun.next_of_step hstep).1, fun s hs s' hs' hsome => ?_⟩
    obtain rfl : r = s := Option.some.inj (hrun.symm.trans hs)
    obtain rfl : r' = s' := Option.some.inj (hstep.symm.trans hs')
    rw [hnone] at hsome
    cases hsome

end ReadLoopAux

open ReadLoopAux ConnectionManager

/-- In every run in which `dispatch_frame` returns normally, the asynchronous read loop refines `read_frame` on the bytes
received. -/
theorem readLoop_refines (Γ : Env) {es : List ConnectionEvent} {r : ConnectionRun} (h : (connectionMachine Γ).run es = some r)
    (hreturns : (connectionMachine Γ).Guarded (DispatchReturns Γ) es) : RefinesReadFrame Γ es r := by
  have hloop := loop_of_run h hreturns
  obtain ⟨left, ex, hleft, hfail, hreading, hescaped⟩ := hloop.left
  have hframes : ∀ k b, (es.flatMap ConnectionEvent.received).length ≤ k →
      readFrames Γ.constants k b (es.flatMap ConnectionEvent.received) = (r.manager.dispatched, left) := by
    intro k b hk
    rw [hleft, List.length_append] at hk
    have hcount := length_le_flatMap_sequence Γ.constants r.manager.dispatched
    rw [hleft]
    exact readFrames_append Γ.constants hloop.short hfail (by omega) b
  refine ⟨?_, ?_, hloop.stopped, hloop.going, fun k b hk => congrArg Prod.fst (hframes k b hk), ?_⟩
  · cases hreading with
    | header b hreads _ _ => exact (congrArg List.length hreads).le
    | body b n hreads _ _ _ => exact (congrArg List.length hreads).le
    | stopped hreads => exact (congrArg List.length hreads).le.trans (Nat.zero_le 1)
  · intro n m hmem
    cases hreading with
    | header b hreads _ _ =>
      rw [hreads] at hmem
      cases List.mem_singleton.mp hmem
    | body b n' hreads hlen hrequired hbuffer =>
      rw [hreads] at hmem
      cases List.mem_singleton.mp hmem
      obtain ⟨type, channel, size, last, hheader, hpos, hbuffer'⟩ := size_of_required Γ.constants hlen hrequired
      rw [hbuffer] at hbuffer'
      cases hbuffer'
      exact ⟨type, channel, size, last, hheader, hpos, Nat.sub_add_cancel hpos⟩
    | stopped hreads =>
      rw [hreads] at hmem
      cases hmem
  · intro k b ex' hk
    rw [hframes k b hk, hfail]
    rcases hescaped with ⟨hquiet, rfl⟩ | ⟨i, bytes, hex, hne⟩
    · refine iff_of_false ?_ ?_
      · rintro ⟨i, bytes, hex⟩
        exact hquiet i bytes ex' hex
      · rintro ⟨heq, hne⟩
        cases heq
        exact hne rfl
    · constructor
      · rintro ⟨j, bytes', hex'⟩
        rw [hex] at hex'
        cases hex'
        exact ⟨rfl, hne⟩
      · rintro ⟨heq, -⟩
        cases heq
        exact ⟨i, bytes, hex⟩

/-- A channel is opened, and the broker's `channel.open_ok` is read in two reads. -/
theorem readLoop_refines_openOk :
    ∃ r, (connectionMachine .sample).run [.startOpenChannel, .readDone 0 (some [1, 0, 1, 0, 0, 0, 8, 0]),
        .readDone 0 (some [20, 0, 11, 0, 0, 0, 0, 206])] = some r ∧ r.manager.dispatched = [EnvSample.openOkFrame] ∧
      RefinesReadFrame .sample [.startOpenChannel, .readDone 0 (some [1, 0, 1, 0, 0, 0, 8, 0]),
        .readDone 0 (some [20, 0, 11, 0, 0, 0, 0, 206])] r := by
  have hstate : ((connectionMachine .sample).run [.startOpenChannel, .readDone 0 (some [1, 0, 1, 0, 0, 0, 8, 0]),
      .readDone 0 (some [20, 0, 11, 0, 0, 0, 0, 206])]).map (fun r => (r.manager.dispatched, r.escaped.isNone)) =
      some ([EnvSample.openOkFrame], true) := by decide +kernel
  obtain ⟨r, hr, hstate⟩ := Option.map_eq_some_iff.mp hstate
  obtain ⟨hdispatched, hnone⟩ := Prod.mk.injEq _ _ _ _ |>.mp hstate
  exact ⟨r, hr, hdispatched,
    readLoop_refines .sample hr (guarded_of_escaped_eq_none hr (Option.isNone_iff_eq_none.mp hnone))⟩

end Amqpp
