import Mathlib.Logic.Relation
import BlockLink.Compile.State

/-!
# `BlockLink/Proofs/Pins/Execution.lean` — generated code against a board's table of pin modes

A board keeps for each pin the mode that it was last put into (`cfg.p` in the generated code). Here
is what running generated code does to that table, one small step at a time: the code still to run
is a stack of pieces, a branch may go either way, a loop may go round any number of times, and at a
pause the other scripts may leave any table behind. `Code.Safe` is that no run, however far it has
come, gets to use a pin in a mode that the table does not have for it.

The steps follow the labels of the code and not its text: plain text does nothing to the table, and
a guard, a use or a pause does what its label says. That the text of a script does what the labels
say, no more and no less, is a statement of its own (`Code.MatchesText`), and holds on checked
boards. Plain text also goes on. A `do return end` ends a script on the board, and here the code
behind it counts as run: this adds runs and takes none away, so what is safe here is safe there.

Safety is proved backwards. `Code.wp` is the condition on the table under which code runs safely and
ends in a given condition; it is defined by recursion on the code, with an invariant for each loop,
a step keeps it (`Running.Step.safeFrom`), and so a run does. `Code.Keeps` is the form used of
compiled code: the table has what the compiler remembers before, and will have what it remembers
after.
-/

set_option autoImplicit false

namespace BlockLink

/-- What a board keeps about its pins: the number of the mode each was put into, if there is one. -/
abbrev PinTable := Pin → Option Nat

/-- The table behind a guard: the pin is put into the mode unless the table says that it is in
it. -/
def PinTable.guarded (t : PinTable) (pin : Pin) (mode : PinMode) : PinTable :=
  if t pin = some mode.code then t else fun p => if p = pin then some mode.code else t p

theorem PinTable.guarded_apply (t : PinTable) (pin : Pin) (mode : PinMode) (p : Pin) :
    t.guarded pin mode p = if p = pin then some mode.code else t p := by
  unfold guarded
  by_cases h : t pin = some mode.code
  · rw [if_pos h]
    by_cases hp : p = pin
    · rw [if_pos hp, hp, h]
    · rw [if_neg hp]
  · rw [if_neg h]

/-! ## Running -/

/-- A board in the middle of a run: the pieces of code still to run, and its table. -/
structure Running where
  todo : List Code
  table : PinTable

namespace Running

/-- One step of a run. Plain text is a step that goes on, also where it says `return`. -/
inductive Step : Running → Running → Prop where
  | text {s : String} {k : List Code} {t : PinTable} : Step ⟨.text s :: k, t⟩ ⟨k, t⟩
  | seq {a b : Code} {k : List Code} {t : PinTable} : Step ⟨.seq a b :: k, t⟩ ⟨a :: b :: k, t⟩
  /-- The other scripts run, and may leave any table behind. -/
  | pause {k : List Code} {t : PinTable} (t' : PinTable) : Step ⟨.pause :: k, t⟩ ⟨k, t'⟩
  | guard {pin : Pin} {mode : PinMode} {setup : String} {k : List Code} {t : PinTable} :
      Step ⟨.guard pin mode setup :: k, t⟩ ⟨k, t.guarded pin mode⟩
  | access {pin : Pin} {mode : PinMode} {s : String} {k : List Code} {t : PinTable} :
      Step ⟨.access pin mode s :: k, t⟩ ⟨k, t⟩
  | whileDone {c b : Code} {k : List Code} {t : PinTable} :
      Step ⟨.whileLoop c b :: k, t⟩ ⟨c :: k, t⟩
  | whileAgain {c b : Code} {k : List Code} {t : PinTable} :
      Step ⟨.whileLoop c b :: k, t⟩ ⟨c :: b :: .whileLoop c b :: k, t⟩
  /-- The count is computed once, and may come to any number. -/
  | forLoop {c b : Code} {k : List Code} {t : PinTable} (n : Nat) :
      Step ⟨.forLoop c b :: k, t⟩ ⟨c :: (List.replicate n b ++ k), t⟩
  | ifTaken {c y : Code} {k : List Code} {t : PinTable} :
      Step ⟨.ifThen c y :: k, t⟩ ⟨c :: y :: k, t⟩
  | ifSkipped {c y : Code} {k : List Code} {t : PinTable} : Step ⟨.ifThen c y :: k, t⟩ ⟨c :: k, t⟩
  | elseYes {c y n : Code} {k : List Code} {t : PinTable} :
      Step ⟨.ifElse c y n :: k, t⟩ ⟨c :: y :: k, t⟩
  | elseNo {c y n : Code} {k : List Code} {t : PinTable} :
      Step ⟨.ifElse c y n :: k, t⟩ ⟨c :: n :: k, t⟩
  | rightTaken {l r : Code} {op : String} {k : List Code} {t : PinTable} :
      Step ⟨.shortCircuit l op r :: k, t⟩ ⟨l :: r :: k, t⟩
  | rightSkipped {l r : Code} {op : String} {k : List Code} {t : PinTable} :
      Step ⟨.shortCircuit l op r :: k, t⟩ ⟨l :: k, t⟩
  /-- Making a function does not run it. -/
  | function {parameters : String} {b : Code} {k : List Code} {t : PinTable} :
      Step ⟨.function parameters b :: k, t⟩ ⟨k, t⟩
  | runNow {b : Code} {k : List Code} {t : PinTable} : Step ⟨.runNow b :: k, t⟩ ⟨b :: k, t⟩

/-- If a pin is about to be used, the table has the mode it is used in. -/
def InMode (m : Running) : Prop :=
  ∀ pin mode s k, m.todo = .access pin mode s :: k → m.table pin = some mode.code

end Running

open Running

/-- Whatever table the code starts from and however it runs, every pin is used in the mode that the
table has for it. -/
def Code.Safe (c : Code) : Prop :=
  ∀ t m, Relation.ReflTransGen Step ⟨[c], t⟩ m → m.InMode

/-! ## Conditions on the table

A loop has an invariant in its condition, so that what a loop needs can be said without running
it. -/

/-- The tables from which code runs safely and, if it comes to its end, ends in `Q`. -/
def Code.wp : Code → (PinTable → Prop) → PinTable → Prop
  | .text _, Q => Q
  | .seq a b, Q => a.wp (b.wp Q)
  | .pause, Q => fun _ => ∀ t, Q t
  | .guard pin mode _, Q => fun t => Q (t.guarded pin mode)
  | .access pin mode _, Q => fun t => t pin = some mode.code ∧ Q t
  | .whileLoop c b, Q => fun t =>
    ∃ I : PinTable → Prop, I t ∧ ∀ t, I t → c.wp (fun t => Q t ∧ b.wp I t) t
  | .forLoop c b, Q => fun t => ∃ I : PinTable → Prop, c.wp I t ∧ ∀ t, I t → Q t ∧ b.wp I t
  | .ifThen c y, Q => c.wp fun t => Q t ∧ y.wp Q t
  | .ifElse c y n, Q => c.wp fun t => y.wp Q t ∧ n.wp Q t
  | .shortCircuit l _ r, Q => l.wp fun t => Q t ∧ r.wp Q t
  | .function _ _, Q => Q
  | .runNow b, Q => b.wp Q

/-- Running into a weaker condition is easier. -/
theorem Code.wp_mono (c : Code) {Q R : PinTable → Prop} (h : ∀ t, Q t → R t) {t : PinTable}
    (hc : c.wp Q t) : c.wp R t := by
  induction c generalizing Q R t with
  | text s | function ps b _ => exact h t hc
  | seq a b iha ihb => exact iha (fun t' => ihb h) hc
  | pause => exact fun t' => h t' (hc t')
  | guard pin mode setup => exact h _ hc
  | access pin mode s => exact ⟨hc.1, h t hc.2⟩
  | whileLoop c b ihc ihb =>
    obtain ⟨I, hI, hloop⟩ := hc
    exact ⟨I, hI, fun t' ht' => ihc (fun t'' ht'' => ⟨h t'' ht''.1, ht''.2⟩) (hloop t' ht')⟩
  | forLoop c b ihc ihb =>
    obtain ⟨I, hI, hloop⟩ := hc
    exact ⟨I, hI, fun t' ht' => ⟨h t' (hloop t' ht').1, (hloop t' ht').2⟩⟩
  | ifThen c y ihc ihy => exact ihc (fun t' ht' => ⟨h t' ht'.1, ihy h ht'.2⟩) hc
  | ifElse c y n ihc ihy ihn => exact ihc (fun t' ht' => ⟨ihy h ht'.1, ihn h ht'.2⟩) hc
  | shortCircuit l op r ihl ihr => exact ihl (fun t' ht' => ⟨h t' ht'.1, ihr h ht'.2⟩) hc
  | runNow b ihb => exact ihb h hc

/-- The tables from which pieces run safely one after another. -/
def safeFrom : List Code → PinTable → Prop
  | [] => fun _ => True
  | c :: k => c.wp (safeFrom k)

/-- A loop that goes round any number of times, each time from the invariant and back to it. -/
theorem safeFrom_replicate {b : Code} {k : List Code} {I : PinTable → Prop}
    (h : ∀ t, I t → safeFrom k t ∧ b.wp I t) (n : Nat) {t : PinTable} (ht : I t) :
    safeFrom (List.replicate n b ++ k) t := by
  induction n generalizing t with
  | zero => exact (h t ht).1
  | succ n ih => exact b.wp_mono (fun t' => ih) (h t ht).2

/-- A step leads from a safe table to a safe one. -/
theorem Running.Step.safeFrom {m m' : Running} (h : Step m m') (hm : safeFrom m.todo m.table) :
    safeFrom m'.todo m'.table := by
  cases h with
  | text | seq | guard | function | runNow => exact hm
  | pause t' => exact hm t'
  | access => exact hm.2
  | @whileDone c b k t =>
    obtain ⟨I, hI, hloop⟩ := hm
    exact c.wp_mono (fun t' ht' => ht'.1) (hloop t hI)
  | @whileAgain c b k t =>
    -- The invariant that held in front of the loop holds again behind its body.
    obtain ⟨I, hI, hloop⟩ := hm
    exact c.wp_mono (fun t' ht' => b.wp_mono (fun t'' ht'' => ⟨I, ht'', hloop⟩) ht'.2) (hloop t hI)
  | @forLoop c b k t n =>
    obtain ⟨I, hI, hloop⟩ := hm
    exact c.wp_mono (fun t' ht' => safeFrom_replicate hloop n ht') hI
  | @ifTaken c y k t => exact c.wp_mono (fun t' ht' => ht'.2) hm
  | @ifSkipped c y k t => exact c.wp_mono (fun t' ht' => ht'.1) hm
  | @elseYes c y n k t => exact c.wp_mono (fun t' ht' => ht'.1) hm
  | @elseNo c y n k t => exact c.wp_mono (fun t' ht' => ht'.2) hm
  | @rightTaken l r op k t => exact l.wp_mono (fun t' ht' => ht'.2) hm
  | @rightSkipped l r op k t => exact l.wp_mono (fun t' ht' => ht'.1) hm

theorem Running.run_safeFrom {m m' : Running} (h : Relation.ReflTransGen Step m m')
    (hm : safeFrom m.todo m.table) : safeFrom m'.todo m'.table := by
  induction h with
  | refl => exact hm
  | tail _ hstep ih => exact hstep.safeFrom ih

/-- Where the condition holds, the use that is about to happen is in its mode. -/
theorem Running.inMode_of_safeFrom {m : Running} (hm : safeFrom m.todo m.table) : m.InMode := by
  intro pin mode s k htodo
  rw [htodo] at hm
  exact hm.1

theorem Code.safe_of_wp {c : Code} (h : ∀ t, c.wp (fun _ => True) t) : c.Safe :=
  fun t _ hrun => inMode_of_safeFrom (run_safeFrom hrun (h t))

/-! ## What the compiler remembers

The memory of the compiler is a condition on tables. Each construct is shown to lead from one memory
to another. -/

/-- The table has every mode that is remembered. -/
def PinTable.Agrees (t : PinTable) (m : PinMemory) : Prop :=
  ∀ pin mode, m.get? pin = some mode → t pin = some mode.code

theorem PinTable.agrees_empty (t : PinTable) : t.Agrees .empty :=
  fun _ _ h => absurd h (by simp [SortedMap.get?, SortedMap.empty, SortedMap.lookup])

namespace Code

/-- From a table that has what is remembered before, code runs safely and leaves one that has what
is remembered after. -/
def Keeps (c : Code) (before after : PinMemory) : Prop :=
  ∀ t : PinTable, t.Agrees before → c.wp (fun t' => t'.Agrees after) t

theorem Keeps.safe {c : Code} {after : PinMemory} (h : c.Keeps .empty after) : c.Safe :=
  safe_of_wp fun t => c.wp_mono (fun _ _ => trivial) (h t t.agrees_empty)

theorem keeps_text (s : String) (m : PinMemory) : (Code.text s).Keeps m m :=
  fun _ ht => ht

theorem Keeps.append {a b : Code} {m₁ m₂ m₃ : PinMemory} (ha : a.Keeps m₁ m₂)
    (hb : b.Keeps m₂ m₃) : (a ++ b).Keeps m₁ m₃ :=
  fun t ht => a.wp_mono (fun t' ht' => hb t' ht') (ha t ht)

/-- What is not remembered need not hold. -/
theorem Keeps.forget {c : Code} {m : PinMemory} (h : ∃ after, c.Keeps .empty after) :
    c.Keeps m .empty := by
  obtain ⟨after, hc⟩ := h
  exact fun t _ => c.wp_mono (fun t' _ => t'.agrees_empty) (hc t t.agrees_empty)

theorem keeps_pause (m : PinMemory) : Code.pause.Keeps m .empty :=
  fun _ _ t => t.agrees_empty

/-- A loop that remembers nothing at the start of each round. -/
theorem Keeps.whileLoop {c b : Code} (hc : c.Keeps .empty .empty) (hb : b.Keeps .empty .empty)
    (m : PinMemory) : (Code.whileLoop c b).Keeps m .empty := by
  intro t _
  refine ⟨fun _ => True, trivial, fun t' _ => ?_⟩
  refine c.wp_mono (fun t'' ht'' => ⟨ht'', ?_⟩) (hc t' t'.agrees_empty)
  exact b.wp_mono (fun _ _ => trivial) (hb t'' ht'')

theorem Keeps.forLoop {c b : Code} {m : PinMemory} (hc : c.Keeps m .empty)
    (hb : b.Keeps .empty .empty) : (Code.forLoop c b).Keeps m .empty := by
  intro t ht
  refine ⟨fun _ => True, c.wp_mono (fun _ _ => trivial) (hc t ht), fun t' _ =>
    ⟨t'.agrees_empty, ?_⟩⟩
  exact b.wp_mono (fun _ _ => trivial) (hb t' t'.agrees_empty)

theorem Keeps.ifThen {c y : Code} {m : PinMemory} (hc : c.Keeps m .empty)
    (hy : y.Keeps .empty .empty) : (Code.ifThen c y).Keeps m .empty :=
  fun t ht => c.wp_mono (fun t' ht' => ⟨ht', hy t' ht'⟩) (hc t ht)

theorem Keeps.ifElse {c y n : Code} {m : PinMemory} (hc : c.Keeps m .empty)
    (hy : y.Keeps .empty .empty) (hn : n.Keeps .empty .empty) :
    (Code.ifElse c y n).Keeps m .empty :=
  fun t ht => c.wp_mono (fun t' ht' => ⟨hy t' ht', hn t' ht'⟩) (hc t ht)

theorem Keeps.runNow {b : Code} {m m' : PinMemory} (hb : b.Keeps m m') :
    (Code.runNow b).Keeps m m' :=
  hb

end Code

end BlockLink
