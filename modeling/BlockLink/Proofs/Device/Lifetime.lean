import BlockLink.Proofs.Device.Deeds

/-!
# `BlockLink/Proofs/Device/Lifetime.lean` — how long a run takes

A body `Needs` a number of turns if it returns in the last of them and in none before, whatever the
device is like in each. When this number is known for every coroutine in the table, a pass takes one
off it: those that need no more are dropped, and the others need one turn less
(`Kept.needsTurns_pass`). So a run of so many passes can be described without running it, for each
unit by the number of turns it needs and for the run by the largest of them. The end of a unit is
noticed one pass after it returned, which is the one pass more that a run takes
(`Trampoline.run_takes_exactly`).
-/

set_option autoImplicit false

namespace BlockLink

namespace Trampoline

variable {Body : Type}

/-! ## How many turns are needed

The number has to be the same on every device, since what the other bodies do to the device between
two turns is not known. -/

section

variable [Coroutine Body]

/-- The body returns in exactly the given number of turns from now, whatever the device. -/
inductive Needs : Nat → Body → Prop where
  | last {b : Body} (hreturns : ∀ d, (Coroutine.resume b d).returned = true) : Needs 1 b
  | later {n : Nat} {b : Body} (hwaits : ∀ d, (Coroutine.resume b d).returned = false)
      (hlater : ∀ d, Needs n (Coroutine.resume b d).body) : Needs (n + 1) b

theorem Needs.pos {n : Nat} {b : Body} (h : Needs n b) : 0 < n := by
  cases h with
  | last => exact Nat.one_pos
  | later => exact Nat.succ_pos _

/-- Each unit in the table needs the given number of turns: none if it is dead. -/
def NeedsTurns (t : Trampoline Body) (r : UnitId → Nat) : Prop :=
  ∀ e ∈ t.table.entries, e.2.state = .dead ∧ r e.1 = 0 ∨ e.2.state ≠ .dead ∧ Needs (r e.1) e.2.body

theorem NeedsTurns.dead_iff {t : Trampoline Body} {r : UnitId → Nat} (h : t.NeedsTurns r)
    {e : UnitId × Bound Body} (he : e ∈ t.table.entries) : e.2.state = .dead ↔ r e.1 = 0 := by
  rcases h e he with ⟨hdead, hzero⟩ | ⟨halive, hneeds⟩
  · exact iff_of_true hdead hzero
  · exact iff_of_false halive (Nat.ne_of_gt hneeds.pos)

end

/-- The largest number of turns that one of the units needs. -/
def mostTurns (r : UnitId → Nat) : List UnitId → Nat
  | [] => 0
  | id :: ids => max (r id) (mostTurns r ids)

/-- The number of passes until the table is empty: none if it is, and otherwise one more than the
largest number of turns that a unit in it needs. -/
def passesNeeded (t : Trampoline Body) (r : UnitId → Nat) : Nat :=
  if t.table.isEmpty then 0 else 1 + mostTurns r t.table.keys

theorem mostTurns_le_iff {r : UnitId → Nat} {ids : List UnitId} {n : Nat} :
    mostTurns r ids ≤ n ↔ ∀ id ∈ ids, r id ≤ n := by
  induction ids with
  | nil => simp [mostTurns]
  | cons id ids ih => rw [mostTurns, Nat.max_le, ih, List.forall_mem_cons]

/-- So many passes are enough if they leave one behind the last turn of every unit. -/
theorem passesNeeded_le_iff {t : Trampoline Body} {r : UnitId → Nat} {n : Nat} :
    t.passesNeeded r ≤ n ↔ ∀ id ∈ t.table.keys, r id < n := by
  unfold passesNeeded SortedMap.isEmpty SortedMap.keys
  cases t.table.entries with
  | nil => simp
  | cons e es =>
    rw [if_neg (by simp), List.map_cons]
    cases n with
    | zero => exact iff_of_false (by omega) fun h => Nat.not_lt_zero _ (h e.1 List.mem_cons_self)
    | succ n =>
      rw [Nat.add_comm, Nat.add_le_add_iff_right, mostTurns_le_iff]
      simp only [Nat.lt_succ_iff]

/-! ## Counting deeds

How often a unit takes a turn and how often its end is printed, in a list of deeds. -/

/-- Whether the deed is a turn of the unit. -/
def Deed.isTurnOf (id : UnitId) : Deed Body → Bool
  | .turn j _ => j == id
  | .begins _ | .ends _ => false

/-- Whether the deed is to print that the unit has ended. -/
def Deed.isEndOf (id : UnitId) : Deed Body → Bool
  | .ends j => j == id
  | .begins _ | .turn _ _ => false

/-- How often a unit is resumed in deeds. -/
def turnCount (id : UnitId) (deeds : List (Deed Body)) : Nat :=
  deeds.countP (Deed.isTurnOf id)

/-- How often the end of a unit is printed in deeds. -/
def endCount (id : UnitId) (deeds : List (Deed Body)) : Nat :=
  deeds.countP (Deed.isEndOf id)

/-- In a pass a unit is resumed once if it is alive, and no unit is resumed twice. -/
theorem turnCount_passDeeds {t : Trampoline Body} (h : t.Kept) (id : UnitId) :
    turnCount id t.passDeeds = if id ∈ t.alive.map (·.1) then 1 else 0 := by
  rw [← h.nodup_alive.count, turnCount, passDeeds, List.countP_append, turnsOf, List.countP_map,
    List.countP_map, List.count, List.countP_map]
  simp [Function.comp_def, Deed.isTurnOf]

theorem endCount_passDeeds {t : Trampoline Body} (h : t.Kept) (id : UnitId) :
    endCount id t.passDeeds = if id ∈ t.deadIds then 1 else 0 := by
  rw [← h.nodup_deadIds.count, endCount, passDeeds, List.countP_append, turnsOf, List.countP_map,
    List.countP_map, List.count]
  simp [Function.comp_def, Deed.isEndOf]

variable [Coroutine Body]

/-! ## One pass

A pass drops those that need no turn and resumes the others. Both are read off the numbers, before
the pass is made. -/

namespace Kept

variable {t : Trampoline Body} {r : UnitId → Nat}

omit [Coroutine Body] in
theorem entries_eq_nil_of_live (h : t.Kept) (hlive : t.live = 0) : t.table.entries = [] := by
  rw [h.live, SortedMap.size] at hlive
  exact List.length_eq_zero_iff.mp hlive

/-- What a pass leaves of a coroutine: the same one, one turn later. -/
theorem exists_afterTurn_of_pass (h : t.Kept) {d : Device} {e' : UnitId × Bound Body}
    (he' : e' ∈ (t.pass d).1.table.entries) :
    ∃ e ∈ t.alive, e'.1 = e.1 ∧ ∃ d', e'.2 = afterTurn e.2 d' := by
  obtain ⟨e, he, hkey, d', hresumed⟩ := exists_resumes_of_pass h.sorted he'
  refine ⟨e, he, hkey, d', ?_⟩
  rw [hresumed, resume_of_running (h.state_of_alive he)]

/-- A pass takes one off the turns that are needed. -/
theorem needsTurns_pass (h : t.Kept) (hr : t.NeedsTurns r) (d : Device) :
    (t.pass d).1.NeedsTurns fun id => r id - 1 := by
  intro e' he'
  obtain ⟨e, he, hkey, d', hbound⟩ := h.exists_afterTurn_of_pass he'
  obtain ⟨hmem, halive⟩ := mem_alive.mp he
  rw [hkey, hbound]
  dsimp only
  have hneeds := ((hr e hmem).resolve_left fun hdead => halive hdead.1).2
  generalize r e.1 = n at hneeds
  generalize hbody : e.2.body = body at hneeds
  -- The turn that was just taken was its last, or there are others.
  cases hneeds with
  | last hreturns =>
    refine .inl ⟨?_, rfl⟩
    rw [state_afterTurn_eq_dead_iff, hbody]
    exact hreturns d'
  | later hwaits hlater =>
    refine .inr ⟨?_, ?_⟩
    · rw [ne_eq, state_afterTurn_eq_dead_iff, hbody, hwaits]
      exact Bool.false_ne_true
    · rw [afterTurn, hbody]
      exact hlater d'

theorem mem_alive_iff_of_needsTurns (hr : t.NeedsTurns r) {id : UnitId} :
    id ∈ t.alive.map (·.1) ↔ id ∈ t.table.keys ∧ r id ≠ 0 := by
  simp only [SortedMap.keys, List.mem_map, mem_alive]
  constructor
  · rintro ⟨e, ⟨he, halive⟩, rfl⟩
    exact ⟨⟨e, he, rfl⟩, fun hzero => halive ((hr.dead_iff he).mpr hzero)⟩
  · rintro ⟨⟨e, he, rfl⟩, hpos⟩
    exact ⟨e, ⟨he, fun hdead => hpos ((hr.dead_iff he).mp hdead)⟩, rfl⟩

theorem mem_deadIds_iff_of_needsTurns (hr : t.NeedsTurns r) {id : UnitId} :
    id ∈ t.deadIds ↔ id ∈ t.table.keys ∧ r id = 0 := by
  simp only [deadIds, SortedMap.keys, List.mem_map, List.mem_filter, decide_eq_true_iff]
  constructor
  · rintro ⟨e, ⟨he, hdead⟩, rfl⟩
    exact ⟨⟨e, he, rfl⟩, (hr.dead_iff he).mp hdead⟩
  · rintro ⟨⟨e, he, rfl⟩, hzero⟩
    exact ⟨e, ⟨he, (hr.dead_iff he).mpr hzero⟩, rfl⟩

/-- Those stay that need a turn. -/
theorem mem_keys_pass_iff (h : t.Kept) (hr : t.NeedsTurns r) (d : Device) {id : UnitId} :
    id ∈ (t.pass d).1.table.keys ↔ id ∈ t.table.keys ∧ r id ≠ 0 := by
  rw [keys_pass h.sorted, mem_alive_iff_of_needsTurns hr]

/-- A pass is one of those that are needed. -/
theorem passesNeeded_pass (h : t.Kept) (hr : t.NeedsTurns r)
    (hne : t.table.entries ≠ []) (d : Device) :
    t.passesNeeded r = (t.pass d).1.passesNeeded (fun id => r id - 1) + 1 := by
  -- Both sides are largest elements, so they are compared by what is below a bound.
  have hle : ∀ n, t.passesNeeded r ≤ n ↔
      (t.pass d).1.passesNeeded (fun id => r id - 1) + 1 ≤ n := by
    intro n
    cases n with
    | zero =>
      refine iff_of_false ?_ (by omega)
      rw [passesNeeded_le_iff]
      obtain ⟨e, he⟩ := List.exists_mem_of_ne_nil _ hne
      exact fun hall => Nat.not_lt_zero _ (hall e.1 (List.mem_map_of_mem he))
    | succ n =>
      rw [Nat.add_le_add_iff_right, passesNeeded_le_iff, passesNeeded_le_iff]
      constructor
      · intro hall id hid
        obtain ⟨hmem, hpos⟩ := (h.mem_keys_pass_iff hr d).mp hid
        have hlt := hall id hmem
        omega
      · intro hall id hid
        by_cases hzero : r id = 0
        · omega
        · have hlt := hall id ((h.mem_keys_pass_iff hr d).mpr ⟨hid, hzero⟩)
          omega
  exact Nat.le_antisymm ((hle _).mpr (Nat.le_refl _)) ((hle _).mp (Nat.le_refl _))

end Kept

/-! ## Runs

What a run comes to is stated for any limit on its passes, so that the induction can take one pass
off the limit and one turn off every unit. -/

/-- What a run of at most `max` passes comes to when the units need the given numbers of turns. -/
structure RunsDown (t : Trampoline Body) (r : UnitId → Nat) (max : Nat) (d : Device) : Prop where
  passes : (t.run max d).1 = min max (t.passesNeeded r)
  turns : ∀ id, turnCount id (runDeeds max t d) = if id ∈ t.table.keys then min max (r id) else 0
  ends : ∀ id, endCount id (runDeeds max t d) = if id ∈ t.table.keys ∧ r id < max then 1 else 0
  /-- A unit that has not been dropped was resumed in every pass. -/
  counter : ∀ e ∈ t.table.entries, max ≤ r e.1 → ∃ b, (t.run max d).2.1.table.get? e.1 = some b ∧
    b.resumes = e.2.resumes + max ∧ (b.state = .dead ↔ max = r e.1)
  left : ∀ id, id ∈ (t.run max d).2.1.table.keys → id ∈ t.table.keys ∧ max ≤ r id

namespace Kept

variable {t : Trampoline Body} {r : UnitId → Nat}

theorem runsDown_zero (h : t.Kept) (hr : t.NeedsTurns r) (d : Device) : t.RunsDown r 0 d where
  passes := (Nat.zero_min _).symm
  turns := fun id => by rw [Nat.zero_min, ite_self]; rfl
  ends := fun id => by rw [if_neg (fun h => Nat.not_lt_zero _ h.2)]; rfl
  counter := by
    intro e he _
    exact ⟨e.2, (SortedMap.get?_eq_some_iff h.sorted).mpr he, rfl, (hr.dead_iff he).trans eq_comm⟩
  left := fun id hid => ⟨hid, Nat.zero_le _⟩

/-- With an empty table a run ends before its first pass, however many it may make. -/
theorem runsDown_of_empty (hempty : t.table.entries = []) (hlive : t.live = 0)
    (max : Nat) (d : Device) :
    t.RunsDown r (max + 1) d := by
  have hrun : t.run (max + 1) d = (0, t, d) := by rw [Trampoline.run, if_pos hlive]
  have hdeeds : runDeeds (max + 1) t d = [] := by rw [runDeeds, if_pos hlive]
  have hkeys : t.table.keys = [] := by rw [SortedMap.keys, hempty]; rfl
  have hneeded : t.passesNeeded r = 0 := by rw [passesNeeded, SortedMap.isEmpty, hempty]; rfl
  refine ⟨?_, ?_, ?_, ?_, ?_⟩
  · rw [hrun, hneeded, Nat.min_zero]
  · intro id
    rw [hdeeds, hkeys, if_neg List.not_mem_nil]
    rfl
  · intro id
    rw [hdeeds, hkeys, if_neg (fun h => List.not_mem_nil h.1)]
    rfl
  · intro e he
    rw [hempty] at he
    cases he
  · intro id hid
    rw [hrun, hkeys] at hid
    cases hid

/-- The step: a pass, and then a run that may make one pass less, in which every unit needs one turn
less. -/
theorem runsDown_succ (h : t.Kept) (hr : t.NeedsTurns r) (hlive : t.live ≠ 0)
    {max : Nat} {d : Device} (hrest : (t.pass d).1.RunsDown (fun id => r id - 1) max (t.pass d).2) :
    t.RunsDown r (max + 1) d := by
  have hne : t.table.entries ≠ [] := by
    intro hempty
    rw [h.live, SortedMap.size, hempty] at hlive
    exact hlive rfl
  have hrun : t.run (max + 1) d = (((t.pass d).1.run max (t.pass d).2).1 + 1,
      ((t.pass d).1.run max (t.pass d).2).2) := by
    rw [Trampoline.run, if_neg hlive]
  have hdeeds : runDeeds (max + 1) t d = t.passDeeds ++ runDeeds max (t.pass d).1 (t.pass d).2 := by
    rw [runDeeds, if_neg hlive]
  refine ⟨?_, ?_, ?_, ?_, ?_⟩
  -- The passes: this one and those of the rest.
  · rw [hrun, hrest.passes, h.passesNeeded_pass hr hne d]
    dsimp only
    omega
  · intro id
    -- The turns of a unit: one in this pass if it needs any, and then those of the rest.
    rw [hdeeds, turnCount, List.countP_append, ← turnCount, ← turnCount, turnCount_passDeeds h,
      hrest.turns]
    simp only [h.mem_keys_pass_iff hr, mem_alive_iff_of_needsTurns hr]
    by_cases hid : id ∈ t.table.keys
    · by_cases hzero : r id = 0
      · simp [hid, hzero]
      · simp only [hid, hzero, ne_eq, not_false_eq_true, and_self, if_true]
        omega
    · simp [hid]
  · intro id
    -- Its end: in this pass if it needs no turn, and otherwise in the rest, at the same time as
    -- before.
    rw [hdeeds, endCount, List.countP_append, ← endCount, ← endCount,
      endCount_passDeeds h, hrest.ends]
    simp only [h.mem_keys_pass_iff hr, mem_deadIds_iff_of_needsTurns hr]
    by_cases hid : id ∈ t.table.keys
    · by_cases hzero : r id = 0
      · simp [hid, hzero]
      · have hlater : r id - 1 < max ↔ r id < max + 1 := by omega
        simp [hid, hzero, hlater]
    · simp [hid]
  · intro e he hmax
    -- Its own counter: it takes part in this pass, so it goes up by one here and by `max` in the
    -- rest.
    have halive : e ∈ t.alive := mem_alive.mpr ⟨he, fun hdead => by
      have hzero := (hr.dead_iff he).mp hdead
      omega⟩
    obtain ⟨front, back, hsplit⟩ := List.append_of_mem halive
    have hget := h.get?_pass_of_alive hsplit d
    rw [SortedMap.get?_eq_some_iff (sorted_pass h.sorted d)] at hget
    obtain ⟨b, hb, hresumes, hdead⟩ := hrest.counter _ hget (by dsimp only; omega)
    refine ⟨b, ?_, ?_, ?_⟩
    · rw [hrun]
      exact hb
    · rw [hresumes, afterTurn]
      dsimp only
      omega
    · rw [hdead]
      dsimp only
      omega
  · intro id hid
    rw [hrun] at hid
    obtain ⟨hkeys, hmax⟩ := hrest.left id hid
    obtain ⟨hmem, hpos⟩ := (h.mem_keys_pass_iff hr d).mp hkeys
    exact ⟨hmem, by omega⟩

/-- The induction is on the number of passes allowed: a pass leaves a table in which each unit needs
one turn less. -/
theorem runsDown (h : t.Kept) (hr : t.NeedsTurns r) (max : Nat) (d : Device) :
    t.RunsDown r max d := by
  induction max generalizing t r d with
  | zero => exact h.runsDown_zero hr d
  | succ max ih =>
    by_cases hlive : t.live = 0
    · exact runsDown_of_empty (h.entries_eq_nil_of_live hlive) hlive max d
    · exact h.runsDown_succ hr hlive (ih (h.pass d) (h.needsTurns_pass hr d) _)

end Kept

/-- A list of turns in which nothing returns is used up, and returns when it is resumed once
more. -/
theorem needs_turns (turns : List Turn) (h : ∀ turn ∈ turns, turn.returns = false) :
    Needs (turns.length + 1) turns := by
  induction turns with
  | nil => exact .last fun _ => rfl
  | cons turn turns ih =>
    rw [List.forall_mem_cons] at h
    exact .later (fun _ => h.1) fun _ => ih h.2

/-! ## What a run prints

The deeds say what the trampoline prints. That its lines are the only ones of their kind on the
device takes bodies that print none of them. -/

/-- Bodies that print no marks leave it to the trampoline to say that a unit ended. -/
theorem count_perform (id : UnitId) {deeds : List (Deed Body)}
    (hquiet : ∀ j body, Deed.turn j body ∈ deeds → Quiet body) (d : Device) :
    (perform deeds d).output.count (endedLine id)
      = d.output.count (endedLine id) + endCount id deeds := by
  induction deeds generalizing d with
  | nil => rfl
  | cons deed deeds ih =>
    have hlater := ih fun j body hmem => hquiet j body (List.mem_cons_of_mem _ hmem)
    have hstep : perform (deed :: deeds) d = perform deeds (deed.perform d) := rfl
    -- One deed. Only the end of this very unit adds the line: the line of a beginning is another
    -- mark, and a turn of a quiet body prints no marks.
    have hcount : (deed.perform d).output.count (endedLine id)
        = d.output.count (endedLine id) + if deed.isEndOf id then 1 else 0 := by
      cases deed with
      | begins j =>
        have hline : startedLine j ≠ endedLine id := fun heq => by
          have hmarks := (mark?_startedLine j).symm.trans (heq ▸ mark?_endedLine id)
          simp at hmarks
        simp [Deed.perform, Device.print, Deed.isEndOf, List.count_append, hline]
      | turn j body =>
        obtain ⟨lines, hout, hmarks⟩ := (hquiet j body List.mem_cons_self).resume d
        have hnone : endedLine id ∉ lines := fun hmem => by
          have hmark : (id, false) ∈ marks lines :=
            List.mem_filterMap.mpr ⟨_, hmem, mark?_endedLine id⟩
          rw [hmarks] at hmark
          cases hmark
        rw [Deed.perform, hout, List.count_append, List.count_eq_zero_of_not_mem hnone]
        rfl
      | ends j =>
        have hline : endedLine j = endedLine id ↔ j = id := by
          refine ⟨fun heq => ?_, fun heq => by rw [heq]⟩
          have hmarks := (mark?_endedLine j).symm.trans (heq ▸ mark?_endedLine id)
          simpa using hmarks
        simp [Deed.perform, Device.print, Deed.isEndOf, List.count_append,
          List.count_singleton, hline]
    rw [hstep, hlater, hcount, endCount, endCount, List.countP_cons]
    omega

/-- The bodies that are resumed in a run are those of the table and what is left of them. -/
theorem Kept.quiet_of_mem_runDeeds {t : Trampoline Body} (h : t.Kept) (hquiet : t.EveryBody Quiet)
    {max : Nat} {d : Device} {j : UnitId} {body : Body} (hmem : .turn j body ∈ runDeeds max t d) :
    Quiet body := by
  induction max generalizing t d with
  | zero => cases hmem
  | succ max ih =>
    unfold runDeeds at hmem
    split at hmem
    · cases hmem
    · rcases List.mem_append.mp hmem with hnow | hlater
      · rcases List.mem_append.mp hnow with hturn | hend
        · obtain ⟨e, he, heq⟩ := List.mem_map.mp hturn
          cases heq
          exact hquiet e he
        · obtain ⟨id, -, heq⟩ := List.mem_map.mp hend
          cases heq
      · exact ih (h.pass d) (hquiet.pass keptByTurns_quiet h.sorted d) hlater

/-- A run takes exactly the passes that are needed, if it may. Whatever calls led to a table in
which each unit needs a known number of turns, a run makes the passes it needs or those it may,
whichever is less. If it may make all of them then the table is empty at the end, each unit was
resumed as often as it needed, and its end was printed once: if the bodies print no marks
themselves, the device then has one line more for it than before. Up to then a unit's own count goes
up with every pass, and it dies in the pass in which its turns are used up. -/
theorem run_takes_exactly (calls : List (Call Body)) (r : UnitId → Nat)
    (hr : (after calls).NeedsTurns r) (max : Nat) (d : Device) :
    ((after calls).run max d).1 = min max ((after calls).passesNeeded r) ∧
      ((after calls).run max d).2.2 = perform (runDeeds max (after calls) d) d ∧
      ((after calls).passesNeeded r ≤ max →
        ((after calls).run max d).2.1.live = 0 ∧
        ∀ id ∈ (after calls).table.keys, turnCount id (runDeeds max (after calls) d) = r id ∧
          endCount id (runDeeds max (after calls) d) = 1 ∧
          ((after calls).EveryBody Quiet →
            ((after calls).run max d).2.2.output.count ("dc:" ++ wordText id ++ ":")
              = d.output.count ("dc:" ++ wordText id ++ ":") + 1)) ∧
      ∀ e ∈ (after calls).table.entries, ∀ k ≤ r e.1,
        ∃ b, ((after calls).run k d).2.1.table.get? e.1 = some b ∧
          b.resumes = e.2.resumes + k ∧ (b.state = .dead ↔ k = r e.1) := by
  have h := kept_after calls
  have hend : ((after calls).run max d).2.1.Kept := by
    have hcall := kept_after (calls ++ [.run max d])
    rwa [after, List.foldl_concat] at hcall
  have hruns := h.runsDown hr max d
  refine ⟨hruns.passes, h.device_run max d, ?_, ?_⟩
  · intro hneeded
    -- The run may make all passes: nothing is left in the table, as whatever is left needs more
    -- turns.
    rw [passesNeeded_le_iff] at hneeded
    refine ⟨?_, ?_⟩
    · rw [hend.live, SortedMap.size, List.length_eq_zero_iff, List.eq_nil_iff_forall_not_mem]
      intro e he
      obtain ⟨hmem, hle⟩ := hruns.left e.1 (List.mem_map_of_mem he)
      have hlt := hneeded e.1 hmem
      omega
    · intro id hid
      have hlt := hneeded id hid
      have hends : endCount id (runDeeds max (after calls) d) = 1 := by
        rw [hruns.ends, if_pos ⟨hid, hlt⟩]
      refine ⟨?_, hends, fun hquiet => ?_⟩
      · rw [hruns.turns, if_pos hid]
        omega
      · have hturns : ∀ j body, .turn j body ∈ runDeeds max (after calls) d → Quiet body :=
          fun _ _ hmem => h.quiet_of_mem_runDeeds hquiet hmem
        have hcount := count_perform id hturns d
        rw [← h.device_run max d, hends] at hcount
        exact hcount
  · intro e he k hk
    exact (h.runsDown hr k d).counter e he hk

/-- Three units that have been started: one needs three more turns, one returned when it was
started, and one needs another turn. A run that may take a hundred passes takes four. -/
theorem run_takes_exactly_four :
    let calls : List (Call (List Turn)) :=
      [.declare 0 (List.replicate 3 ⟨[], false⟩), .declare 2 [],
      .declare 5 [⟨[], false⟩], .start 0 .initial, .start 2 .initial, .start 5 .initial]
    let r : UnitId → Nat := fun id => if id = 0 then 3 else if id = 5 then 1 else 0
    (after calls).NeedsTurns r ∧ ((after calls).run 100 .initial).1 = min 100 4 ∧
      ((after calls).run 100 .initial).2.1.live = 0 := by
  intro calls r
  have hr : (after calls).NeedsTurns r := by
    intro e he
    have hentries : (after calls).table.entries = [(0, ⟨List.replicate 2 ⟨[], false⟩, .running, 1⟩),
      (2, ⟨[], .dead, 1⟩), (5, ⟨[], .running, 1⟩)] := rfl
    rw [hentries] at he
    simp only [List.mem_cons, List.not_mem_nil, or_false] at he
    rcases he with rfl | rfl | rfl
    · exact .inr ⟨nofun, needs_turns (List.replicate 2 ⟨[], false⟩) (by simp)⟩
    · exact .inl ⟨rfl, rfl⟩
    · exact .inr ⟨nofun, needs_turns [] nofun⟩
  obtain ⟨hpasses, -, hall, -⟩ := run_takes_exactly calls r hr 100 .initial
  have hneeded : (after calls).passesNeeded r = 4 := rfl
  rw [hneeded] at hpasses
  exact ⟨hr, hpasses, (hall (by rw [hneeded]; decide)).1⟩

end Trampoline

end BlockLink
