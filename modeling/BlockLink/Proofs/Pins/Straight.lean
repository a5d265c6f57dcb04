import BlockLink.Proofs.Pins.Guards

/-!
# `BlockLink/Proofs/Pins/Straight.lean` — code without branches, pin by pin

Code that is straight does the same things in the same order whenever it runs, and what it does to a
pin is told by the marks on that pin alone. So two pieces of straight code with the same marks on
every pin are as good as each other, in whatever order the marks of different pins stand
(`KeepsAt.congr`). This is what makes it possible to speak of operands that run in another order
than they were compiled.

The other half is about code that goes wrong: `Code.Fails` is that from every table some run comes
to use a pin in a mode that the table does not have for it. It gets through everything that can be
wrapped around a statement, because every piece of code has a run to its end.
-/

set_option autoImplicit false

namespace BlockLink

open Running

/-! ## Marks on one pin

What the marks on a pin do to its entry does not depend on the marks on other pins. So a question
about a table is one about each pin on its own. -/

namespace PinMark

/-- The pin that a mark is on. -/
def pin : PinMark → Pin
  | .guard pin _ | .access pin _ => pin

/-- The mode that a mark is about. -/
def mode : PinMark → PinMode
  | .guard _ mode | .access _ mode => mode

/-- What the table has for a pin behind marks. -/
def entry (p : Pin) : List PinMark → Option Nat → Option Nat
  | [], x => x
  | .guard pin mode :: marks, x => entry p marks (if p = pin then some mode.code else x)
  | .access _ _ :: marks, x => entry p marks x

/-- Every use of a pin among marks finds it in its mode. -/
def Covers (p : Pin) : List PinMark → Option Nat → Prop
  | [], _ => True
  | .guard pin mode :: marks, x => Covers p marks (if p = pin then some mode.code else x)
  | .access pin mode :: marks, x => (p = pin → x = some mode.code) ∧ Covers p marks x

instance decidableCovers (p : Pin) : (marks : List PinMark) → (x : Option Nat) →
    Decidable (Covers p marks x)
  | [], _ => isTrue trivial
  | .guard pin mode :: marks, x => decidableCovers p marks (if p = pin then some mode.code else x)
  | .access _ _ :: marks, x => @instDecidableAnd _ _ inferInstance (decidableCovers p marks x)

/-- Behind two lists of marks the table is what the second makes of what the first leaves. -/
theorem entry_append (p : Pin) (xs ys : List PinMark) (x : Option Nat) :
    entry p (xs ++ ys) x = entry p ys (entry p xs x) := by
  induction xs generalizing x with
  | nil => rfl
  | cons mark xs ih => cases mark <;> exact ih _

/-- Uses in the second list find what the first one leaves. -/
theorem covers_append (p : Pin) (xs ys : List PinMark) (x : Option Nat) :
    Covers p (xs ++ ys) x ↔ Covers p xs x ∧ Covers p ys (entry p xs x) := by
  induction xs generalizing x with
  | nil => simp [Covers, entry]
  | cons mark xs ih =>
    cases mark with
    | guard pin mode => exact ih _
    | access pin mode =>
      simp only [List.cons_append, Covers, ih, and_assoc]
      rfl

/-- The marks on a pin. -/
def on (p : Pin) (marks : List PinMark) : List PinMark :=
  marks.filter (·.pin = p)

theorem on_append (p : Pin) (xs ys : List PinMark) : on p (xs ++ ys) = on p xs ++ on p ys :=
  List.filter_append _ _

theorem on_eq_nil {p : Pin} {marks : List PinMark} :
    on p marks = [] ↔ ∀ mark ∈ marks, mark.pin ≠ p := by
  simp [on]

/-- Marks on other pins do not touch the entry of a pin. -/
theorem entry_on (p : Pin) (marks : List PinMark) (x : Option Nat) :
    entry p (on p marks) x = entry p marks x := by
  induction marks generalizing x with
  | nil => rfl
  | cons mark marks ih =>
    by_cases hp : mark.pin = p
    · have hon : on p (mark :: marks) = mark :: on p marks := List.filter_cons_of_pos
        (by simpa using hp)
      rw [hon]
      cases mark <;> exact ih _
    · have hon : on p (mark :: marks) = on p marks := List.filter_cons_of_neg (by simpa using hp)
      rw [hon, ih]
      cases mark with
      | guard pin mode =>
        have hne : p ≠ pin := fun h => hp h.symm
        rw [entry, if_neg hne]
      | access pin mode => rfl

theorem covers_on (p : Pin) (marks : List PinMark) (x : Option Nat) :
    Covers p (on p marks) x ↔ Covers p marks x := by
  induction marks generalizing x with
  | nil => exact Iff.rfl
  | cons mark marks ih =>
    by_cases hp : mark.pin = p
    · have hon : on p (mark :: marks) = mark :: on p marks := List.filter_cons_of_pos
        (by simpa using hp)
      rw [hon]
      cases mark with
      | guard pin mode => exact ih _
      | access pin mode => exact and_congr_right fun _ => ih _
    · have hon : on p (mark :: marks) = on p marks := List.filter_cons_of_neg (by simpa using hp)
      rw [hon, ih]
      cases mark with
      | guard pin mode =>
        have hne : p ≠ pin := fun h => hp h.symm
        rw [Covers, if_neg hne]
      | access pin mode =>
        have hne : p ≠ pin := fun h => hp h.symm
        simp [Covers, hne]

end PinMark

open PinMark

/-! ## What is remembered of one pin -/

/-- From a table that has what is remembered of a pin before, its uses find it in their modes, and
the table has what is remembered of it after. -/
def KeepsAt (p : Pin) (marks : List PinMark) (before after : Option PinMode) : Prop :=
  ∀ x : Option Nat, (∀ mode, before = some mode → x = some mode.code) →
    Covers p marks x ∧ ∀ mode, after = some mode → entry p marks x = some mode.code

theorem keepsAt_nil (p : Pin) (known : Option PinMode) : KeepsAt p [] known known :=
  fun _ hx => ⟨trivial, hx⟩

/-- What the first marks leave remembered, the second start from. -/
theorem KeepsAt.append {p : Pin} {xs ys : List PinMark} {m₁ m₂ m₃ : Option PinMode}
    (hxs : KeepsAt p xs m₁ m₂) (hys : KeepsAt p ys m₂ m₃) : KeepsAt p (xs ++ ys) m₁ m₃ := by
  intro x hx
  obtain ⟨hcovers, hmid⟩ := hxs x hx
  obtain ⟨hcovers', hafter⟩ := hys _ hmid
  rw [covers_append, entry_append]
  exact ⟨⟨hcovers, hcovers'⟩, hafter⟩

/-- Only the marks on the pin matter. -/
theorem KeepsAt.congr {p : Pin} {xs ys : List PinMark} {before after : Option PinMode}
    (h : KeepsAt p xs before after) (hon : on p ys = on p xs) : KeepsAt p ys before after := by
  intro x hx
  rw [← covers_on, ← entry_on, hon, covers_on, entry_on]
  exact h x hx

/-- What is written for a use leads from what is remembered before it to what is remembered
after. -/
theorem keepsAt_marksOf {m : PinMemory} (hm : m.Sorted) (pin : Pin) (mode : PinMode) (p : Pin) :
    KeepsAt p (marksOf m.get? (some (pin, mode))) (m.get? p) ((m.insert pin mode).get? p) := by
  intro x hx
  rw [SortedMap.get?_insert hm]
  unfold marksOf
  by_cases hp : p = pin
  · subst hp
    by_cases hknown : m.get? p = some mode
    · simp [hknown, Covers, entry, hx mode hknown]
    · simp [hknown, Covers, entry]
  · by_cases hknown : m.get? pin = some mode
    · simpa [hknown, Covers, entry, hp] using hx
    · simpa [hknown, Covers, entry, hp] using hx

namespace Code

/-! ## Straight code -/

/-- Code without loops, branches and pauses. -/
def Straight : Code → Prop
  | .text _ | .guard _ _ _ | .access _ _ _ => True
  | .seq a b => a.Straight ∧ b.Straight
  | .runNow b => b.Straight
  | _ => False

instance decidableStraight : (c : Code) → Decidable c.Straight
  | .text _ | .guard _ _ _ | .access _ _ _ => isTrue trivial
  | .seq a b => @instDecidableAnd _ _ (decidableStraight a) (decidableStraight b)
  | .runNow b => decidableStraight b
  | .pause | .whileLoop _ _ | .forLoop _ _ | .ifThen _ _ | .ifElse _ _ _ | .shortCircuit _ _ _
  | .function _ _ => isFalse id

/-- The table behind straight code. -/
def tableAfter (c : Code) (t : PinTable) : PinTable :=
  fun p => entry p c.marks (t p)

theorem tableAfter_guard (pin : Pin) (mode : PinMode) (setup : String) (t : PinTable) :
    (Code.guard pin mode setup).tableAfter t = t.guarded pin mode := by
  funext p
  exact (t.guarded_apply pin mode p).symm

theorem tableAfter_seq (a b : Code) (t : PinTable) :
    (Code.seq a b).tableAfter t = b.tableAfter (a.tableAfter t) := by
  funext p
  exact entry_append p a.marks b.marks (t p)

/-- Straight code runs safely from a table that covers its uses on every pin. -/
theorem wp_of_straight {c : Code} (hc : c.Straight) {Q : PinTable → Prop} {t : PinTable}
    (hcovers : ∀ p, Covers p c.marks (t p)) (hQ : Q (c.tableAfter t)) : c.wp Q t := by
  induction c generalizing Q t with
  | text s => exact hQ
  | guard pin mode setup =>
    rw [tableAfter_guard] at hQ
    exact hQ
  | access pin mode s => exact ⟨(hcovers pin).1 rfl, hQ⟩
  | seq a b iha ihb =>
    have hboth := fun p => (covers_append p a.marks b.marks (t p)).mp (hcovers p)
    rw [tableAfter_seq] at hQ
    exact iha hc.1 (fun p => (hboth p).1) (ihb hc.2 (fun p => (hboth p).2) hQ)
  | runNow b ihb => exact ihb hc hcovers hQ
  | pause | whileLoop | forLoop | ifThen | ifElse | shortCircuit | function => exact hc.elim

/-- Straight code keeps what it keeps of each pin. -/
theorem Keeps.of_straight {c : Code} (hc : c.Straight) {m m' : PinMemory}
    (h : ∀ p, KeepsAt p c.marks (m.get? p) (m'.get? p)) : c.Keeps m m' := by
  intro t ht
  have hat := fun p => h p (t p) (ht p)
  exact wp_of_straight hc (fun p => (hat p).1) fun p => (hat p).2

/-! ## Running to the end

To go wrong, code must be reached. Any code can be run to its end, from any table: its loops and
branches need not be entered, and at a pause nothing need happen. -/

/-- Straight code has one way to run. -/
theorem run_straight {c : Code} (hc : c.Straight) (k : List Code) (t : PinTable) :
    Relation.ReflTransGen Step ⟨c :: k, t⟩ ⟨k, c.tableAfter t⟩ := by
  induction c generalizing k t with
  | text s => exact .single .text
  | guard pin mode setup =>
    rw [tableAfter_guard]
    exact .single .guard
  | access pin mode s => exact .single .access
  | seq a b iha ihb =>
    rw [tableAfter_seq]
    exact .head .seq ((iha hc.1 (b :: k) t).trans (ihb hc.2 k _))
  | runNow b ihb => exact .head .runNow (ihb hc k t)
  | pause | whileLoop | forLoop | ifThen | ifElse | shortCircuit | function => exact hc.elim

/-- Every piece of code can run to its end. -/
theorem exists_run (c : Code) (k : List Code) (t : PinTable) :
    ∃ t', Relation.ReflTransGen Step ⟨c :: k, t⟩ ⟨k, t'⟩ := by
  induction c generalizing k t with
  | text s => exact ⟨t, .single .text⟩
  | pause => exact ⟨t, .single (.pause t)⟩
  | guard pin mode setup => exact ⟨_, .single .guard⟩
  | access pin mode s => exact ⟨t, .single .access⟩
  | function parameters b _ => exact ⟨t, .single .function⟩
  | seq a b iha ihb =>
    obtain ⟨t₁, ha⟩ := iha (b :: k) t
    obtain ⟨t₂, hb⟩ := ihb k t₁
    exact ⟨t₂, .head .seq (ha.trans hb)⟩
  -- A loop may go round no times at all, and a branch may be skipped.
  | whileLoop c b ihc _ =>
    obtain ⟨t', hc⟩ := ihc k t
    exact ⟨t', .head .whileDone hc⟩
  | forLoop c b ihc _ =>
    obtain ⟨t', hc⟩ := ihc k t
    exact ⟨t', .head (.forLoop 0) hc⟩
  | ifThen c y ihc _ =>
    obtain ⟨t', hc⟩ := ihc k t
    exact ⟨t', .head .ifSkipped hc⟩
  | ifElse c y n ihc ihy _ =>
    obtain ⟨t₁, hc⟩ := ihc (y :: k) t
    obtain ⟨t₂, hy⟩ := ihy k t₁
    exact ⟨t₂, .head .elseYes (hc.trans hy)⟩
  | shortCircuit l op r ihl _ =>
    obtain ⟨t', hl⟩ := ihl k t
    exact ⟨t', .head .rightSkipped hl⟩
  | runNow b ihb =>
    obtain ⟨t', hb⟩ := ihb k t
    exact ⟨t', .head .runNow hb⟩

/-! ## Going wrong -/

/-- From every table some run comes to use a pin in a mode that the table does not have for it. -/
def Fails (c : Code) : Prop :=
  ∀ k t, ∃ m, Relation.ReflTransGen Step ⟨c :: k, t⟩ m ∧ ¬ m.InMode

theorem Fails.not_safe {c : Code} (h : c.Fails) : ¬ c.Safe := by
  intro hsafe
  obtain ⟨m, hrun, hwrong⟩ := h [] fun _ => none
  exact hwrong (hsafe _ m hrun)

/-- Code that comes after something that runs to its end. -/
theorem Fails.after {b : Code} (h : b.Fails) (a : Code) (k : List Code) (t : PinTable) :
    ∃ m, Relation.ReflTransGen Step ⟨a :: b :: k, t⟩ m ∧ ¬ m.InMode := by
  obtain ⟨t', ha⟩ := a.exists_run (b :: k) t
  obtain ⟨m, hb, hwrong⟩ := h k t'
  exact ⟨m, ha.trans hb, hwrong⟩

theorem Fails.append_left {a : Code} (h : a.Fails) (b : Code) : (a ++ b).Fails := by
  intro k t
  obtain ⟨m, hrun, hwrong⟩ := h (b :: k) t
  exact ⟨m, .head .seq hrun, hwrong⟩

theorem Fails.append_right {b : Code} (h : b.Fails) (a : Code) : (a ++ b).Fails := by
  intro k t
  obtain ⟨m, hrun, hwrong⟩ := h.after a k t
  exact ⟨m, .head .seq hrun, hwrong⟩

theorem Fails.whileLoop {b : Code} (h : b.Fails) (c : Code) : (Code.whileLoop c b).Fails := by
  intro k t
  obtain ⟨m, hrun, hwrong⟩ := h.after c (.whileLoop c b :: k) t
  exact ⟨m, .head .whileAgain hrun, hwrong⟩

theorem Fails.forLoop {b : Code} (h : b.Fails) (c : Code) : (Code.forLoop c b).Fails := by
  intro k t
  obtain ⟨m, hrun, hwrong⟩ := h.after c k t
  exact ⟨m, .head (.forLoop 1) hrun, hwrong⟩

theorem Fails.ifThen {y : Code} (h : y.Fails) (c : Code) : (Code.ifThen c y).Fails := by
  intro k t
  obtain ⟨m, hrun, hwrong⟩ := h.after c k t
  exact ⟨m, .head .ifTaken hrun, hwrong⟩

theorem Fails.ifElse {c y n : Code} (h : y.Fails ∨ n.Fails) : (Code.ifElse c y n).Fails := by
  intro k t
  rcases h with hy | hn
  · obtain ⟨m, hrun, hwrong⟩ := hy.after c k t
    exact ⟨m, .head .elseYes hrun, hwrong⟩
  · obtain ⟨m, hrun, hwrong⟩ := hn.after c k t
    exact ⟨m, .head .elseNo hrun, hwrong⟩

/-- Straight code comes to the use that is not covered. -/
theorem exists_wrong {c : Code} (hc : c.Straight) {p : Pin} {t : PinTable}
    (h : ¬ Covers p c.marks (t p)) (k : List Code) :
    ∃ m, Relation.ReflTransGen Step ⟨c :: k, t⟩ m ∧ ¬ m.InMode := by
  induction c generalizing k t with
  | text s | guard pin mode setup => exact absurd trivial h
  | access pin mode s =>
    refine ⟨_, .refl, fun hmode => h ⟨?_, trivial⟩⟩
    rintro rfl
    exact hmode p mode s k rfl
  | seq a b iha ihb =>
    have hnot : ¬ (Covers p a.marks (t p) ∧ Covers p b.marks (a.tableAfter t p)) :=
      fun hboth => h ((covers_append p a.marks b.marks (t p)).mpr hboth)
    -- The first part runs through and the second goes wrong, or the first one does.
    by_cases ha : Covers p a.marks (t p)
    · obtain ⟨m, hrun, hwrong⟩ := ihb hc.2 (fun hb => hnot ⟨ha, hb⟩) k
      exact ⟨m, .head .seq ((run_straight hc.1 (b :: k) t).trans hrun), hwrong⟩
    · obtain ⟨m, hrun, hwrong⟩ := iha hc.1 ha (b :: k)
      exact ⟨m, .head .seq hrun, hwrong⟩
  | runNow b ihb =>
    obtain ⟨m, hrun, hwrong⟩ := ihb hc h k
    exact ⟨m, .head .runNow hrun, hwrong⟩
  | pause | whileLoop | forLoop | ifThen | ifElse | shortCircuit | function => exact hc.elim

theorem fails_of_straight {c : Code} (hc : c.Straight) {p : Pin}
    (h : ∀ x, ¬ Covers p c.marks x) : c.Fails :=
  fun k t => exists_wrong hc (h (t p)) k

end Code

end BlockLink
