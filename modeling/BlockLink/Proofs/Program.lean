import Mathlib.Data.List.Induction
import BlockLink.Program
import BlockLink.Proofs.Text.Digits

/-!
# `BlockLink/Proofs/Program.lean` — a program's text tells which units it starts

Whether a program has to be sent again is decided by comparing texts, and the sources in it are
whatever users write. What the comparison can be trusted with is the list of units to start: the
start lines stand at the end, each ends in the digits of its id and a closing bracket, and nothing
in front of them ends that way. So equal texts start equal units, in the same order.
-/

set_option autoImplicit false

namespace BlockLink.Program

variable {Origin : Type}

/-- The characters of a start line. -/
def startChars (id : UnitId) : List Char :=
  (start id).toList

/-- The digits in front of the last two characters, last one first. -/
def finalDigits (cs : List Char) : List Char :=
  (cs.reverse.drop 2).takeWhile Char.isDigit

/-- A text that ends in a start line ends in the digits of its id. -/
theorem finalDigits_append_startChars (pre : List Char) (id : UnitId) :
    finalDigits (pre ++ startChars id) = (wordDigits id).reverse := by
  obtain ⟨front, hfront⟩ : ∃ front, start id = front ++ coroutineName id ++ ")\n" := ⟨_, rfl⟩
  have hchars : startChars id = front.toList ++ 'c' :: (wordDigits id ++ [')', '\n']) := by
    rw [startChars, hfront]
    simp [coroutineName, toList_wordText]
  have hdigits : ∀ c ∈ (wordDigits id).reverse, c.isDigit = true := by
    intro c hc
    exact isDigit_of_mem_wordDigits (List.mem_reverse.mp hc)
  simp only [finalDigits, hchars, List.reverse_append, List.reverse_cons, List.append_assoc,
    List.reverse_nil, List.nil_append, List.cons_append, List.drop_succ_cons, List.drop_zero]
  rw [List.takeWhile_append_of_pos hdigits]
  simp

theorem finalDigits_append_declare (pre : List Char) (u : CompiledUnit Origin) :
    finalDigits (pre ++ (declare u).toList) = [] := by
  obtain ⟨front, hfront⟩ : ∃ front, declare u = front ++ "end)\n" := ⟨_, rfl⟩
  rw [hfront]
  simp [finalDigits]

/-- What stands in front of the start lines does not end like one. -/
theorem finalDigits_declarations (units : List (CompiledUnit Origin)) :
    finalDigits (units.flatMap fun u => (declare u).toList) = [] := by
  induction units using List.reverseRecOn with
  | nil => rfl
  | append_singleton units u _ =>
    rw [List.flatMap_append, List.flatMap_singleton]
    exact finalDigits_append_declare _ u

/-- A text that does not end like a start line does not end in start lines. -/
theorem append_startChars_ne {a b : List Char} (ha : finalDigits a = []) (xs : List UnitId)
    (x : UnitId) : a ≠ b ++ (xs ++ [x]).flatMap startChars := by
  rintro rfl
  rw [List.flatMap_append, List.flatMap_singleton, ← List.append_assoc,
    finalDigits_append_startChars] at ha
  exact absurd (List.reverse_eq_nil_iff.mp ha) (wordDigits_ne_nil x)

/-- Behind texts that do not end like start lines, equal start lines have equal ids. -/
theorem startChars_injective {a b : List Char} (ha : finalDigits a = []) (hb : finalDigits b = [])
    {xs ys : List UnitId} (h : a ++ xs.flatMap startChars = b ++ ys.flatMap startChars) :
    xs = ys := by
  -- The start lines are read off from behind, so the induction takes the last one of each side.
  induction xs using List.reverseRecOn generalizing ys with
  | nil =>
    cases ys using List.reverseRecOn with
    | nil => rfl
    | append_singleton ys y =>
      rw [List.flatMap_nil, List.append_nil] at h
      exact absurd h (append_startChars_ne ha ys y)
  | append_singleton xs x ih =>
    cases ys using List.reverseRecOn with
    | nil =>
      rw [List.flatMap_nil, List.append_nil] at h
      exact absurd h.symm (append_startChars_ne hb xs x)
    | append_singleton ys y =>
      simp only [List.flatMap_append, List.flatMap_singleton, ← List.append_assoc] at h
      have hlast := congrArg finalDigits h
      rw [finalDigits_append_startChars, finalDigits_append_startChars] at hlast
      obtain rfl : x = y := wordDigits_injective (List.reverse_inj.mp hlast)
      rw [ih (List.append_cancel_right h)]

/-- A program is its preamble, the declarations, the start lines and the trampoline. -/
theorem toList_build (units : List (CompiledUnit Origin)) (ids : List UnitId) (mark : String) :
    (build units ids mark).toList
      = (preamble mark).toList ++ ((units.flatMap fun u => (declare u).toList)
        ++ ids.flatMap startChars) ++ trampoline.toList := by
  rw [build, String.toList_append, String.toList_append, String.toList_append, String.toList_join,
    String.toList_join, List.flatMap_map, List.flatMap_map,
    List.append_assoc (preamble mark).toList]
  rfl

/-- Programs with the same mark and text start the same units. -/
theorem toStart_eq_of_build_eq {Origin' : Type} {units : List (CompiledUnit Origin)}
    {units' : List (CompiledUnit Origin')} {ids ids' : List UnitId} {mark : String}
    (h : build units ids mark = build units' ids' mark) : ids = ids' := by
  have htext := congrArg String.toList h
  rw [toList_build, toList_build] at htext
  exact startChars_injective (finalDigits_declarations units) (finalDigits_declarations units')
    (List.append_cancel_left (List.append_cancel_right htext))

/-- The text is that of a program with a mark which starts a unit. -/
def Starts (mark program : String) (id : UnitId) : Prop :=
  ∃ (Origin : Type) (units : List (CompiledUnit Origin)) (ids : List UnitId),
    program = build units ids mark ∧ id ∈ ids

/-- A program starts the units that it was built to start, and no others. -/
theorem starts_build_iff {units : List (CompiledUnit Origin)} {ids : List UnitId} {mark : String}
    {id : UnitId} : Starts mark (build units ids mark) id ↔ id ∈ ids := by
  constructor
  · rintro ⟨_, units', ids', htext, hmem⟩
    rw [toStart_eq_of_build_eq htext]
    exact hmem
  · exact fun hmem => ⟨Origin, units, ids, rfl, hmem⟩

end BlockLink.Program
