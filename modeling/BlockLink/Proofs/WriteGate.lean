import Mathlib.Data.List.Induction
import Mathlib.Logic.Function.Basic
import BlockLink.WriteGate

/-!
# `BlockLink/Proofs/WriteGate.lean` — any number of writers at one gate

Every writer follows the same course: it tries to pass the gate until it is let through or refused,
puts the bytes of its frame on the wire in pieces of any size, and leaves the gate, also when the
transport fails under it. Writers take turns in any order (`Writers.Move`), so a statement about all
lists of moves is about all interleavings.

Who holds the gate is not written down anywhere in the system. `Writers.HeldBy` says it from
outside, and the two things a run is about are told relative to it: the gate counts the attempts
that were blocked since its holder passed (`Tracked`), and the wire has the frames in the order in
which they passed, but for what the holder still has to put there (`Delivered`).
-/

set_option autoImplicit false

namespace BlockLink

/-- Where a writer is in the course of writing a frame. -/
inductive WriterState where
  | idle
  /-- It has not passed the gate, and tries again some time. -/
  | trying (frame : Frame)
  /-- It has passed the gate, and these bytes are not on the wire yet. -/
  | holding (frame : Frame) (left : List UInt8)
  deriving DecidableEq, Repr

/-- Where a writer is after an attempt. -/
def WriterState.attempted (frame : Frame) : Passage → WriterState
  | .granted => .holding frame frame.toBytes
  | .busy => .trying frame
  | .refused _ => .idle

def WriterState.Holds : WriterState → Prop
  | .holding _ _ => True
  | _ => False

/-- An attempt to pass the gate with a frame, and what came of it. -/
structure Attempt where
  frame : Frame
  passage : Passage
  deriving DecidableEq, Repr

/-- The frames that passed the gate, in order. -/
def passed (log : List Attempt) : List Frame :=
  (log.filter (·.passage = .granted)).map (·.frame)

/-- How many attempts found the gate taken. -/
def blocked (log : List Attempt) : Nat :=
  (log.filter (·.passage ≠ .granted)).length

/-- How many attempts found the gate taken since it was last passed. -/
def blockedSince (log : List Attempt) : Nat :=
  log.foldl (fun n a => if a.passage = .granted then 0 else n + 1) 0

theorem blocked_append (xs ys : List Attempt) : blocked (xs ++ ys) = blocked xs + blocked ys := by
  simp [blocked]

theorem passed_concat_granted (log : List Attempt) (frame : Frame) :
    passed (log ++ [⟨frame, .granted⟩]) = passed log ++ [frame] := by
  simp [passed]

theorem passed_concat_blocked (log : List Attempt) {a : Attempt} (h : a.passage ≠ .granted) :
    passed (log ++ [a]) = passed log := by
  simp [passed, h]

theorem blockedSince_concat_granted (log : List Attempt) (frame : Frame) :
    blockedSince (log ++ [⟨frame, .granted⟩]) = 0 := by
  simp [blockedSince]

theorem blockedSince_concat_blocked (log : List Attempt) {a : Attempt} (h : a.passage ≠ .granted) :
    blockedSince (log ++ [a]) = blockedSince log + 1 := by
  simp [blockedSince, h]

theorem blockedSince_le_blocked (log : List Attempt) : blockedSince log ≤ blocked log := by
  induction log using List.reverseRecOn with
  | nil => exact Nat.le_refl 0
  | append_singleton log a ih =>
    rw [blocked_append]
    by_cases h : a.passage = .granted
    · obtain ⟨frame, passage⟩ := a
      obtain rfl : passage = .granted := h
      rw [blockedSince_concat_granted]
      exact Nat.zero_le _
    · have hone : blocked [a] = 1 := by simp [blocked, h]
      rw [blockedSince_concat_blocked log h, hone]
      omega

/-- Writers around a gate, and what they have put on the wire. -/
structure Writers (ι : Type) where
  gate : WriteGate
  wire : List UInt8
  writer : ι → WriterState

namespace Writers

variable {ι : Type} [DecidableEq ι]

omit [DecidableEq ι] in
/-- Nobody writes. -/
def new (maxAttempts : UInt32) : Writers ι :=
  ⟨.new maxAttempts, [], fun _ => .idle⟩

inductive Move (ι : Type) where
  /-- A writer is given a frame. -/
  | begin (w : ι) (frame : Frame)
  /-- A writer tries to pass the gate. -/
  | attempt (w : ι)
  /-- The transport takes some bytes of a writer. -/
  | put (w : ι) (n : Nat)
  /-- A writer whose bytes are all on the wire leaves the gate. -/
  | finish (w : ι)
  /-- The transport fails, and the writer leaves the gate. -/
  | fail (w : ι)

def Move.Fails : Move ι → Prop
  | .fail _ => True
  | _ => False

/-- The writers when one of them is somewhere else. -/
def set (s : Writers ι) (w : ι) (state : WriterState) : Writers ι :=
  { s with writer := Function.update s.writer w state }

/-- The writers after a move, and the attempt that it was, if it was one. A move that its writer
cannot make where it is does nothing. -/
def perform (s : Writers ι) : Move ι → Writers ι × Option Attempt
  | .begin w frame =>
    match s.writer w with
    | .idle => (s.set w (.trying frame), none)
    | _ => (s, none)
  | .attempt w =>
    match s.writer w with
    | .trying frame =>
      let (passage, gate) := s.gate.acquire
      ({ s with gate }.set w (.attempted frame passage), some ⟨frame, passage⟩)
    | _ => (s, none)
  | .put w n =>
    match s.writer w with
    | .holding frame left =>
      ({ s with wire := s.wire ++ left.take n }.set w (.holding frame (left.drop n)), none)
    | _ => (s, none)
  | .finish w =>
    match s.writer w with
    | .holding _ [] => ({ s with gate := s.gate.release }.set w .idle, none)
    | _ => (s, none)
  | .fail w =>
    match s.writer w with
    | .holding _ _ => ({ s with gate := s.gate.release }.set w .idle, none)
    | _ => (s, none)

/-- The writers after moves in order. -/
def after (s : Writers ι) (moves : List (Move ι)) : Writers ι :=
  moves.foldl (fun s m => (s.perform m).1) s

/-- The attempts among moves in order. -/
def log (s : Writers ι) : List (Move ι) → List Attempt
  | [] => []
  | m :: moves => (s.perform m).2.toList ++ (s.perform m).1.log moves

theorem after_append (s : Writers ι) (xs ys : List (Move ι)) :
    s.after (xs ++ ys) = (s.after xs).after ys :=
  List.foldl_append

theorem after_concat (s : Writers ι) (moves : List (Move ι)) (m : Move ι) :
    s.after (moves ++ [m]) = ((s.after moves).perform m).1 :=
  s.after_append moves [m]

theorem log_append (s : Writers ι) (xs ys : List (Move ι)) :
    s.log (xs ++ ys) = s.log xs ++ (s.after xs).log ys := by
  induction xs generalizing s with
  | nil => rfl
  | cons m xs ih =>
    simp only [List.cons_append, log, ih, List.append_assoc]
    rfl

theorem log_concat (s : Writers ι) (moves : List (Move ι)) (m : Move ι) :
    s.log (moves ++ [m]) = s.log moves ++ ((s.after moves).perform m).2.toList := by
  rw [log_append]
  simp [log]

/-! ## What a move can do -/

/-- One thing that happens, guards included. -/
inductive Turn (s : Writers ι) : Move ι → Writers ι × Option Attempt → Prop where
  | rests {m : Move ι} : Turn s m (s, none)
  | begins {w : ι} {frame : Frame} (h : s.writer w = .idle) :
      Turn s (.begin w frame) (s.set w (.trying frame), none)
  | passes {w : ι} {frame : Frame} (h : s.writer w = .trying frame)
      (hfree : s.gate.writing = false) :
      Turn s (.attempt w)
        ({ s with gate := ⟨true, 0, s.gate.maxAttempts⟩ }.set w (.holding frame frame.toBytes),
          some ⟨frame, .granted⟩)
  | waits {w : ι} {frame : Frame} (h : s.writer w = .trying frame)
      (htaken : s.gate.writing = true) (hmax : ¬ s.gate.maxAttempts ≤ s.gate.attempts + 1) :
      Turn s (.attempt w)
        ({ s with gate := ⟨true, s.gate.attempts + 1, s.gate.maxAttempts⟩ }.set w (.trying frame),
          some ⟨frame, .busy⟩)
  | givesUp {w : ι} {frame : Frame} (h : s.writer w = .trying frame)
      (htaken : s.gate.writing = true) (hmax : s.gate.maxAttempts ≤ s.gate.attempts + 1) :
      Turn s (.attempt w)
        ({ s with gate := ⟨true, s.gate.attempts + 1, s.gate.maxAttempts⟩ }.set w .idle,
          some ⟨frame, .refused (.writeContention (s.gate.attempts + 1))⟩)
  | puts {w : ι} {frame : Frame} {left : List UInt8} (h : s.writer w = .holding frame left)
      (n : Nat) :
      Turn s (.put w n)
        ({ s with wire := s.wire ++ left.take n }.set w (.holding frame (left.drop n)), none)
  | leaves {w : ι} {frame : Frame} (h : s.writer w = .holding frame []) :
      Turn s (.finish w) ({ s with gate := s.gate.release }.set w .idle, none)
  | fails {w : ι} {frame : Frame} {left : List UInt8} (h : s.writer w = .holding frame left) :
      Turn s (.fail w) ({ s with gate := s.gate.release }.set w .idle, none)

/-- An attempt passes, has to wait, or is refused. -/
theorem turn_attempt {s : Writers ι} {w : ι} {frame : Frame} (h : s.writer w = .trying frame) :
    s.Turn (.attempt w) (s.perform (.attempt w)) := by
  simp only [perform, h, WriteGate.acquire]
  cases hgate : s.gate.writing with
  | false => exact .passes h hgate
  | true =>
    by_cases hmax : s.gate.maxAttempts ≤ s.gate.attempts + 1
    · simp only [if_true, if_pos hmax]
      exact .givesUp h hgate hmax
    · simp only [if_true, if_neg hmax]
      exact .waits h hgate hmax

/-- A move does one of these things. -/
theorem turn_perform (s : Writers ι) (m : Move ι) : s.Turn m (s.perform m) := by
  cases m with
  | begin w frame =>
    cases h : s.writer w with
    | idle =>
      simp only [perform, h]
      exact .begins h
    | trying _ | holding _ _ =>
      simp only [perform, h]
      exact .rests
  | attempt w =>
    cases h : s.writer w with
    | trying frame => exact turn_attempt h
    | idle | holding _ _ =>
      simp only [perform, h]
      exact .rests
  | put w n =>
    cases h : s.writer w with
    | holding frame left =>
      simp only [perform, h]
      exact .puts h n
    | idle | trying _ =>
      simp only [perform, h]
      exact .rests
  | finish w =>
    cases h : s.writer w with
    | holding frame left =>
      cases left with
      | nil =>
        simp only [perform, h]
        exact .leaves h
      | cons b left =>
        simp only [perform, h]
        exact .rests
    | idle | trying _ =>
      simp only [perform, h]
      exact .rests
  | fail w =>
    cases h : s.writer w with
    | holding frame left =>
      simp only [perform, h]
      exact .fails h
    | idle | trying _ =>
      simp only [perform, h]
      exact .rests

/-! ## Who holds the gate -/

/-- The gate is taken if there is a holder, and the holder is the one writer past it. -/
structure HeldBy (s : Writers ι) (holder : Option ι) : Prop where
  gate : s.gate.writing = holder.isSome
  holds : ∀ w, (s.writer w).Holds ↔ holder = some w

omit [DecidableEq ι] in
theorem HeldBy.exclusive {s : Writers ι} {holder : Option ι} (h : s.HeldBy holder) {w v : ι}
    (hw : (s.writer w).Holds) (hv : (s.writer v).Holds) : w = v :=
  Option.some.inj (((h.holds w).mp hw).symm.trans ((h.holds v).mp hv))

/-- Only the writer that moves can become the holder or cease to be it. -/
theorem HeldBy.set {s : Writers ι} {holder holder' : Option ι} (h : s.HeldBy holder) (w : ι)
    {state : WriterState} {gate : WriteGate} {wire : List UInt8}
    (hgate : gate.writing = holder'.isSome) (hself : state.Holds ↔ holder' = some w)
    (hother : ∀ v, v ≠ w → (holder' = some v ↔ holder = some v)) :
    HeldBy ({ s with gate, wire }.set w state) holder' := by
  refine ⟨hgate, fun v => ?_⟩
  by_cases hv : v = w
  · subst hv
    simpa [Writers.set] using hself
  · rw [hother v hv, ← h.holds v]
    simp [Writers.set, Function.update_of_ne hv]

/-- A writer that does not hold the gate stays without it. -/
theorem HeldBy.set_other {s : Writers ι} {holder : Option ι} (h : s.HeldBy holder) {w : ι}
    (hw : ¬ (s.writer w).Holds) (state : WriterState) (hstate : ¬ state.Holds) {gate : WriteGate}
    (hgate : gate.writing = s.gate.writing) : HeldBy ({ s with gate }.set w state) holder := by
  apply h.set w (hgate.trans h.gate)
  · exact iff_of_false hstate fun heq => hw ((h.holds w).mpr heq)
  · exact fun v _ => Iff.rfl

/-- The holder leaves the gate. -/
theorem HeldBy.leave {s : Writers ι} {w : ι} (h : s.HeldBy (some w)) :
    HeldBy ({ s with gate := s.gate.release }.set w .idle) none := by
  apply h.set w rfl
  · exact ⟨fun hf => hf.elim, fun hf => by cases hf⟩
  · intro v hv
    simp [Ne.symm hv]

omit [DecidableEq ι] in
theorem HeldBy.eq_some {s : Writers ι} {holder : Option ι} (h : s.HeldBy holder) {w : ι}
    {frame : Frame} {left : List UInt8} (hw : s.writer w = .holding frame left) :
    holder = some w := by
  apply (h.holds w).mp
  rw [hw]
  trivial

omit [DecidableEq ι] in
theorem not_holds_of_idle {s : Writers ι} {w : ι} (h : s.writer w = .idle) :
    ¬ (s.writer w).Holds := by
  rw [h]
  exact fun hf => hf

omit [DecidableEq ι] in
theorem not_holds_of_trying {s : Writers ι} {w : ι} {frame : Frame}
    (h : s.writer w = .trying frame) : ¬ (s.writer w).Holds := by
  rw [h]
  exact fun hf => hf

/-! ## What the gate counts and what is on the wire -/

/-- The gate knows how many attempts were blocked since it was passed, as far as a word can. -/
structure Tracked (s : Writers ι) (maxAttempts : UInt32) (attempts : List Attempt)
    (holder : Option ι) : Prop where
  held : s.HeldBy holder
  limit : s.gate.maxAttempts = maxAttempts
  count : s.gate.attempts = UInt32.ofNat (blockedSince attempts)

/-- Every frame that passed is on the wire, in order, but for what its holder has left. -/
inductive Delivered (s : Writers ι) (attempts : List Attempt) : Option ι → Prop where
  | whole (hwire : s.wire = (passed attempts).flatMap Frame.toBytes) : Delivered s attempts none
  | underway {w : ι} {frame : Frame} {left : List UInt8} (hw : s.writer w = .holding frame left)
      (hlast : (passed attempts).getLast? = some frame) (hleft : left <:+ frame.toBytes)
      (hwire : s.wire ++ left = (passed attempts).flatMap Frame.toBytes) :
      Delivered s attempts (some w)

/-- A writer other than the holder moves, and nothing is put on the wire. -/
theorem Delivered.set {s : Writers ι} {log log' : List Attempt} {holder : Option ι}
    (h : s.Delivered log holder) {w : ι} (hw : ¬ (s.writer w).Holds) (state : WriterState)
    (gate : WriteGate) (hlog : passed log' = passed log) :
    Delivered ({ s with gate }.set w state) log' holder := by
  cases h with
  | whole hwire =>
    apply Delivered.whole
    rw [hlog]
    exact hwire
  | @underway v frame left hv hlast hleft hwire =>
    have hne : v ≠ w := by
      rintro rfl
      rw [hv] at hw
      exact hw trivial
    refine Delivered.underway ?_ (hlog ▸ hlast) hleft (hlog ▸ hwire)
    simpa [Writers.set, Function.update_of_ne hne] using hv

/-- The holder puts some bytes on the wire, and has the others left. -/
theorem Delivered.puts {s : Writers ι} {log : List Attempt} {w : ι} {frame : Frame}
    {left : List UInt8} (h : s.Delivered log (some w)) (hw : s.writer w = .holding frame left)
    (n : Nat) :
    Delivered ({ s with wire := s.wire ++ left.take n }.set w (.holding frame (left.drop n))) log
      (some w) := by
  cases h with
  | @underway w frame' left' hw' hlast hleft hwire =>
    obtain ⟨rfl, rfl⟩ := WriterState.holding.inj (hw.symm.trans hw')
    refine Delivered.underway (Function.update_self ..) hlast ?_ ?_
    · exact (List.drop_suffix n left).trans hleft
    · show s.wire ++ left.take n ++ left.drop n = _
      rw [List.append_assoc, List.take_append_drop]
      exact hwire

theorem Delivered.leaves {s : Writers ι} {log : List Attempt} {w : ι} {frame : Frame}
    (h : s.Delivered log (some w)) (hw : s.writer w = .holding frame []) (gate : WriteGate) :
    Delivered ({ s with gate }.set w .idle) log none := by
  cases h with
  | underway hw' hlast hleft hwire =>
    obtain ⟨rfl, rfl⟩ := WriterState.holding.inj (hw.symm.trans hw')
    apply Delivered.whole
    rw [List.append_nil] at hwire
    exact hwire

/-- A writer that passes has all of its frame left. -/
theorem Delivered.passes {s : Writers ι} {log : List Attempt} (h : s.Delivered log none) (w : ι)
    (frame : Frame) (gate : WriteGate) :
    Delivered ({ s with gate }.set w (.holding frame frame.toBytes))
      (log ++ [⟨frame, .granted⟩]) (some w) := by
  cases h with
  | whole hwire =>
    refine Delivered.underway (Function.update_self ..) ?_ List.suffix_rfl ?_
    · rw [passed_concat_granted, List.getLast?_concat]
    · rw [passed_concat_granted, List.flatMap_append]
      show s.wire ++ frame.toBytes = _
      rw [hwire]
      simp

theorem ofNat_blockedSince {log : List Attempt} {a : Attempt} (h : a.passage ≠ .granted) :
    UInt32.ofNat (blockedSince log) + 1 = UInt32.ofNat (blockedSince (log ++ [a])) := by
  rw [blockedSince_concat_blocked log h, UInt32.ofNat_add]
  rfl

/-- An attempt that finds the gate taken is counted, and changes nothing else. -/
theorem Tracked.blocks {s : Writers ι} {maxAttempts : UInt32} {log : List Attempt}
    {holder : Option ι} (h : s.Tracked maxAttempts log holder) {w : ι}
    (hw : ¬ (s.writer w).Holds) (htaken : s.gate.writing = true) (state : WriterState)
    (hstate : ¬ state.Holds) (a : Attempt) (ha : a.passage ≠ .granted) :
    let s' := { s with gate := ⟨true, s.gate.attempts + 1, s.gate.maxAttempts⟩ }.set w state
    s'.Tracked maxAttempts (log ++ [a]) holder ∧
      (s.Delivered log holder → s'.Delivered (log ++ [a]) holder) := by
  refine ⟨⟨h.held.set_other hw state hstate htaken.symm, h.limit, ?_⟩, fun hdelivered => ?_⟩
  · show s.gate.attempts + 1 = _
    rw [h.count]
    exact ofNat_blockedSince ha
  · exact hdelivered.set hw state _ (passed_concat_blocked log ha)

/-- A move hands the gate on, or leaves it where it is. -/
theorem Tracked.perform {s : Writers ι} {maxAttempts : UInt32} {log : List Attempt}
    {holder : Option ι} (h : s.Tracked maxAttempts log holder) (m : Move ι) :
    ∃ holder', (s.perform m).1.Tracked maxAttempts (log ++ (s.perform m).2.toList) holder' ∧
      (s.Delivered log holder → ¬ m.Fails →
        (s.perform m).1.Delivered (log ++ (s.perform m).2.toList) holder') := by
  have hturn := s.turn_perform m
  generalize s.perform m = r at hturn ⊢
  cases hturn with
  | rests =>
    rw [Option.toList_none, List.append_nil]
    exact ⟨holder, h, fun hdelivered _ => hdelivered⟩
  | @begins w frame hw =>
    have hout := not_holds_of_idle hw
    rw [Option.toList_none, List.append_nil]
    refine ⟨holder, ⟨?_, h.limit, h.count⟩, fun hdelivered _ => hdelivered.set hout _ _ rfl⟩
    exact h.held.set_other hout (.trying frame) (fun hf => hf) rfl
  | @passes w frame hw hfree =>
    -- The gate was free, so nobody held it, and now the writer does.
    obtain rfl : holder = none := by
      have hgate := h.held.gate
      rw [hfree] at hgate
      exact Option.isNone_iff_eq_none.mp (by simpa using hgate.symm)
    refine ⟨some w, ⟨?_, h.limit, ?_⟩, fun hdelivered _ => hdelivered.passes w frame _⟩
    · apply h.held.set w rfl
      · exact ⟨fun _ => rfl, fun _ => trivial⟩
      · intro v hv
        simp [Ne.symm hv]
    · show 0 = UInt32.ofNat _
      rw [Option.toList_some, blockedSince_concat_granted]
      rfl
  | @waits w frame hw htaken hmax =>
    obtain ⟨htracked, hkept⟩ := h.blocks (not_holds_of_trying hw) htaken (.trying frame)
      (fun hf => hf) ⟨frame, .busy⟩ (by simp)
    exact ⟨holder, htracked, fun hdelivered _ => hkept hdelivered⟩
  | @givesUp w frame hw htaken hmax =>
    obtain ⟨htracked, hkept⟩ := h.blocks (not_holds_of_trying hw) htaken .idle (fun hf => hf)
      ⟨frame, .refused (.writeContention (s.gate.attempts + 1))⟩ (by simp)
    exact ⟨holder, htracked, fun hdelivered _ => hkept hdelivered⟩
  | @puts w frame left hw n =>
    obtain rfl := h.held.eq_some hw
    rw [Option.toList_none, List.append_nil]
    refine ⟨some w, ⟨?_, h.limit, h.count⟩, fun hdelivered _ => hdelivered.puts hw n⟩
    exact h.held.set w h.held.gate ⟨fun _ => rfl, fun _ => trivial⟩ fun v _ => Iff.rfl
  | @leaves w frame hw =>
    obtain rfl := h.held.eq_some hw
    rw [Option.toList_none, List.append_nil]
    exact ⟨none, ⟨h.held.leave, h.limit, h.count⟩, fun hdelivered _ => hdelivered.leaves hw _⟩
  | @fails w frame left hw =>
    obtain rfl := h.held.eq_some hw
    rw [Option.toList_none, List.append_nil]
    exact ⟨none, ⟨h.held.leave, h.limit, h.count⟩, fun _ hno => absurd trivial hno⟩

omit [DecidableEq ι] in
theorem tracked_new (maxAttempts : UInt32) :
    (new maxAttempts : Writers ι).Tracked maxAttempts [] none :=
  ⟨⟨rfl, fun _ => ⟨fun hf => hf.elim, fun hf => by cases hf⟩⟩, rfl, rfl⟩

/-- Over every run the gate has at most one holder and counts rightly, and as long as no write fails
the wire has whole frames in the order in which they passed. -/
theorem tracked_after (maxAttempts : UInt32) (moves : List (Move ι)) :
    ∃ holder, ((new maxAttempts).after moves).Tracked maxAttempts
        ((new maxAttempts).log moves) holder ∧
      ((∀ m ∈ moves, ¬ m.Fails) →
        ((new maxAttempts).after moves).Delivered ((new maxAttempts).log moves) holder) := by
  induction moves using List.reverseRecOn with
  | nil => exact ⟨none, tracked_new maxAttempts, fun _ => .whole rfl⟩
  | append_singleton moves m ih =>
    obtain ⟨holder, htracked, hdelivered⟩ := ih
    obtain ⟨holder', htracked', hdelivered'⟩ := htracked.perform m
    rw [after_concat, log_concat]
    refine ⟨holder', htracked', fun hnone => ?_⟩
    apply hdelivered'
    · exact hdelivered fun m' hm' => hnone m' (List.mem_append_left _ hm')
    · exact hnone m (by simp)

/-! ## Giving up -/

/-- An attempt of the writer is refused with an error. -/
def Refused (s : Writers ι) (w : ι) (e : LinkError) : Prop :=
  ∃ frame, (s.perform (.attempt w)).2 = some ⟨frame, .refused e⟩

/-- Refusing, from the state of the gate. -/
theorem refused_iff {s : Writers ι} {w : ι} {e : LinkError} :
    s.Refused w e ↔ (∃ frame, s.writer w = .trying frame) ∧ s.gate.writing = true ∧
      s.gate.maxAttempts ≤ s.gate.attempts + 1 ∧ e = .writeContention (s.gate.attempts + 1) := by
  unfold Refused
  constructor
  · rintro ⟨frame, hrefused⟩
    have hturn := s.turn_perform (.attempt w)
    generalize s.perform (.attempt w) = r at hturn hrefused
    cases hturn with
    | rests | passes | waits => simp at hrefused
    | givesUp h htaken hmax =>
      obtain ⟨rfl, rfl⟩ : _ ∧ _ := by simpa using hrefused
      exact ⟨⟨_, h⟩, htaken, hmax, rfl⟩
  · rintro ⟨⟨frame, hw⟩, htaken, hmax, rfl⟩
    exact ⟨frame, by simp [perform, hw, WriteGate.acquire, htaken, hmax]⟩

theorem blocked_attempt_of_taken {s : Writers ι} {w : ι} {frame : Frame}
    (hw : s.writer w = .trying frame) (htaken : s.gate.writing = true) :
    ∃ a : Attempt, (s.perform (.attempt w)).2 = some a ∧ a.passage ≠ .granted := by
  refine ⟨⟨frame, s.gate.acquire.1⟩, by simp [perform, hw], ?_⟩
  simp only [WriteGate.acquire, htaken, if_true]
  split <;> simp

/-- As long as few enough attempts are blocked, the word does not overflow. -/
theorem toNat_attempts {maxAttempts : UInt32} {before : List (Move ι)} {w : ι} {frame : Frame}
    (hfew : blocked ((new maxAttempts).log (before ++ [.attempt w])) < UInt32.size)
    (hcount : ((new maxAttempts).after before).gate.attempts
      = UInt32.ofNat (blockedSince ((new maxAttempts).log before)))
    (hw : ((new maxAttempts).after before).writer w = .trying frame)
    (htaken : ((new maxAttempts).after before).gate.writing = true) :
    (((new maxAttempts).after before).gate.attempts + 1).toNat
      = blockedSince ((new maxAttempts).log before) + 1 := by
  obtain ⟨a, ha, hblocked⟩ := blocked_attempt_of_taken hw htaken
  have hone : blocked [a] = 1 := by simp [blocked, hblocked]
  rw [log_concat, ha, Option.toList_some, blocked_append, hone] at hfew
  have hle := blockedSince_le_blocked ((new maxAttempts).log before)
  rw [hcount, ofNat_blockedSince hblocked, blockedSince_concat_blocked _ hblocked]
  exact UInt32.toNat_ofNat_of_lt (by omega)

/-- The gate refuses an attempt exactly if it is taken and the attempts blocked since it was passed,
this one included, have reached the limit. The error says how many they are. -/
theorem refused_iff_blockedSince {maxAttempts : UInt32} {before : List (Move ι)} {w : ι}
    (hfew : blocked ((new maxAttempts).log (before ++ [.attempt w])) < UInt32.size)
    (e : LinkError) :
    ((new maxAttempts).after before).Refused w e ↔
      (∃ frame, ((new maxAttempts).after before).writer w = .trying frame) ∧
        (∃ v, (((new maxAttempts).after before).writer v).Holds) ∧
        ∃ k : UInt32, e = .writeContention k ∧
          k.toNat = blockedSince ((new maxAttempts).log before) + 1 ∧
          maxAttempts.toNat ≤ k.toNat := by
  obtain ⟨holder, htracked, -⟩ := tracked_after maxAttempts before
  rw [refused_iff, htracked.limit]
  constructor
  · rintro ⟨⟨frame, hw⟩, htaken, hmax, rfl⟩
    obtain ⟨v, rfl⟩ := Option.isSome_iff_exists.mp (htracked.held.gate.symm.trans htaken)
    refine ⟨⟨frame, hw⟩, ⟨v, (htracked.held.holds v).mpr rfl⟩, _, rfl, ?_, hmax⟩
    exact toNat_attempts hfew htracked.count hw htaken
  · rintro ⟨⟨frame, hw⟩, ⟨v, hv⟩, k, rfl, hk, hmax⟩
    have htaken : ((new maxAttempts).after before).gate.writing = true := by
      rw [htracked.held.gate, (htracked.held.holds v).mp hv]
      rfl
    have hcount := toNat_attempts hfew htracked.count hw htaken
    obtain rfl : k = _ := UInt32.toNat.inj (hk.trans hcount.symm)
    exact ⟨⟨frame, hw⟩, htaken, hmax, rfl⟩

/-! ## Several moves of a writer at once -/

theorem perform_attempt {s : Writers ι} {w : ι} {frame : Frame} (h : s.writer w = .trying frame) :
    (s.perform (.attempt w)).1
      = { s with gate := s.gate.acquire.2 }.set w (.attempted frame s.gate.acquire.1) := by
  simp only [perform, h]

/-- A writer with a frame, or one that is given it now, makes an attempt. -/
theorem exists_attempt {s : Writers ι} {w : ι} {frame : Frame}
    (h : s.writer w = .idle ∨ s.writer w = .trying frame) :
    ∃ moves, s.after moves
        = { s with gate := s.gate.acquire.2 }.set w (.attempted frame s.gate.acquire.1) ∧
      ∀ m ∈ moves, ¬ m.Fails := by
  rcases h with hidle | htrying
  · refine ⟨[.begin w frame, .attempt w], ?_, by simp [Move.Fails]⟩
    have hbegin : (s.perform (.begin w frame)).1 = s.set w (.trying frame) := by
      simp only [perform, hidle]
    show ((s.perform (.begin w frame)).1.perform (.attempt w)).1 = _
    rw [hbegin, perform_attempt (Function.update_self ..)]
    simp [set]
  · exact ⟨[.attempt w], perform_attempt htrying, by simp [Move.Fails]⟩

/-- A writer past the gate puts all it has left on the wire and leaves. -/
theorem after_written {s : Writers ι} {w : ι} {frame : Frame} {left : List UInt8}
    (h : s.writer w = .holding frame left) :
    s.after [.put w left.length, .finish w]
      = { s with gate := s.gate.release, wire := s.wire ++ left }.set w .idle := by
  simp [after, perform, h, set]

theorem after_fail {s : Writers ι} {w : ι} {frame : Frame} {left : List UInt8}
    (h : s.writer w = .holding frame left) :
    s.after [.fail w] = { s with gate := s.gate.release }.set w .idle := by
  simp [after, perform, h]

end Writers

end BlockLink
