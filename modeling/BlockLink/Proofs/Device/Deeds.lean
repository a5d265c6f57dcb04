import BlockLink.Proofs.Device.Trampoline

/-!
# `BlockLink/Proofs/Device/Deeds.lean` — what the trampoline does in its calls

A body may do to the device whatever it likes, take its output or print the end of another unit, so
the lines on the device do not tell who printed them. A `Deed` is something that the trampoline
itself does: it prints that a unit begins or ends, or it resumes a body. For each call the deeds are
listed, and the device after the call is the one before it with these deeds done to it and nothing
else.

`Trampoline.books_agree` is about every sequence of calls, each with a device of its own. It says
that the count is the number of coroutines in the table, that none of them has yet to begin, and
that those found dead are the ones that returned since the last pass began. An onlooker can tell
these from the answers of the bodies alone (`dueAfter`). It also says which deeds a start and a pass
are made of.
-/

set_option autoImplicit false

namespace BlockLink

namespace Trampoline

variable {Body : Type}

/-! ## Deeds

Every function of the trampoline that is given a device hands it on from deed to deed. So the device
after it is a fold over the deeds, and it is enough to list them. -/

/-- Something that the trampoline does to a device. -/
inductive Deed (Body : Type) where
  /-- Prints that a unit begins. -/
  | begins (id : UnitId)
  /-- Resumes the body of a unit. -/
  | turn (id : UnitId) (body : Body)
  /-- Prints that a unit has ended. -/
  | ends (id : UnitId)

/-- The turns of coroutines, in order. -/
def turnsOf (es : List (UnitId × Bound Body)) : List (Deed Body) :=
  es.map fun e => .turn e.1 e.2.body

/-- The deeds of a pass: those that have not returned take a turn each, and the others end. -/
def passDeeds (t : Trampoline Body) : List (Deed Body) :=
  turnsOf t.alive ++ t.deadIds.map .ends

variable [Coroutine Body]

/-- Does a deed. -/
def Deed.perform (d : Device) : Deed Body → Device
  | .begins id => d.print (startedLine id)
  | .turn _ body => (Coroutine.resume body d).device
  | .ends id => d.print (endedLine id)

/-- Does deeds in order. -/
def perform (deeds : List (Deed Body)) (d : Device) : Device :=
  deeds.foldl Deed.perform d

/-- A coroutine after a turn that it took on a device. -/
def afterTurn (b : Bound Body) (d : Device) : Bound Body :=
  ⟨(Coroutine.resume b.body d).body, if (Coroutine.resume b.body d).returned then
    .dead else .running,
    b.resumes + 1⟩

/-- The deeds of a run: those of its passes. -/
def runDeeds : Nat → Trampoline Body → Device → List (Deed Body)
  | 0, _, _ => []
  | max + 1, t, d =>
    if t.live = 0 then [] else t.passDeeds ++ runDeeds max (t.pass d).1 (t.pass d).2

theorem perform_append (xs ys : List (Deed Body)) (d : Device) :
    perform (xs ++ ys) d = perform ys (perform xs d) :=
  List.foldl_append

theorem printEnds_eq (ids : List UnitId) (d : Device) :
    printEnds ids d = perform (ids.map Deed.ends : List (Deed Body)) d := by
  rw [perform, List.foldl_map]
  rfl

/-- Ends that are reported one after another stand behind what was printed before. -/
theorem perform_ends (ids : List UnitId) (d : Device) :
    perform (ids.map Deed.ends : List (Deed Body)) d
      = { d with output := d.output ++ ids.map fun id => "dc:" ++ wordText id ++ ":" } := by
  induction ids generalizing d with
  | nil => simp [perform]
  | cons id ids ih =>
    have hstep : perform ((id :: ids).map Deed.ends : List (Deed Body)) d
        = perform (ids.map Deed.ends : List (Deed Body)) (d.print (endedLine id)) := rfl
    rw [hstep, ih, List.map_cons]
    simp only [Device.print, List.append_assoc, List.singleton_append]
    rfl

/-- A coroutine that runs takes its turn, and the trampoline prints nothing about it. -/
theorem resume_of_running {id : UnitId} {b : Bound Body} (h : b.state = .running) (d : Device) :
    resume id b d = (afterTurn b d, (Coroutine.resume b.body d).device) := by
  simp [resume, h, afterTurn]

/-- Coroutines are resumed in order, each on the device that the ones before it leave. -/
theorem resumeAll_append (xs ys : List (UnitId × Bound Body)) (d : Device) :
    resumeAll (xs ++ ys) d = ((resumeAll xs d).1 ++ (resumeAll ys (resumeAll xs d).2).1,
      (resumeAll ys (resumeAll xs d).2).2) := by
  induction xs generalizing d with
  | nil => rfl
  | cons e xs ih =>
    obtain ⟨id, b⟩ := e
    by_cases hdead : b.state = .dead
    · rw [List.cons_append, resumeAll_cons_of_dead hdead, resumeAll_cons_of_dead hdead, ih]
      rfl
    · rw [List.cons_append, resumeAll_cons_of_alive hdead, resumeAll_cons_of_alive hdead, ih]
      rfl

/-- Coroutines that have begun and not returned take their turns and do nothing else. -/
theorem device_resumeAll {es : List (UnitId × Bound Body)} (h : ∀ e ∈ es, e.2.state = .running)
    (d : Device) : (resumeAll es d).2 = perform (turnsOf es) d := by
  induction es generalizing d with
  | nil => rfl
  | cons e es ih =>
    obtain ⟨id, b⟩ := e
    rw [List.forall_mem_cons] at h
    have hstate : b.state = .running := h.1
    rw [resumeAll_cons_of_alive (by simp [hstate]), resume_of_running hstate]
    exact ih h.2 _

/-! ## One call

For a trampoline whose table is kept in order the deeds of a call can be read off its table, before
the call is made. -/

namespace Kept

variable {t : Trampoline Body}

/-- The device after a pass is the one before it with the deeds of the pass done to it. -/
theorem device_pass (h : t.Kept) (d : Device) : (t.pass d).2 = perform t.passDeeds d := by
  rw [pass_eq h.sorted, passDeeds, perform_append, ← printEnds_eq,
    device_resumeAll fun e he => h.state_of_alive he]

/-- Each one that has not returned is resumed on the device that those before it have left. -/
theorem get?_pass_of_alive (h : t.Kept) {front back : List (UnitId × Bound Body)}
    {e : UnitId × Bound Body} (halive : t.alive = front ++ e :: back) (d : Device) :
    (t.pass d).1.table.get? e.1 = some (afterTurn e.2 (perform (turnsOf front) d)) := by
  have hrunning : ∀ e' ∈ front ++ e :: back, e'.2.state = .running :=
    fun e' he' => h.state_of_alive (halive ▸ he')
  have hstate := hrunning e (by simp)
  have hfront := device_resumeAll (fun e' he' => hrunning e' (List.mem_append_left _ he')) d
  rw [SortedMap.get?_eq_some_iff (sorted_pass h.sorted d), pass_eq h.sorted, halive,
    resumeAll_append, hfront, resumeAll_cons_of_alive (by simp [hstate]), resume_of_running hstate]
  exact List.mem_append_right _ List.mem_cons_self

/-- Whoever was found dead, or was never there, is not in the table after a pass. -/
theorem get?_pass_of_not_alive (h : t.Kept) {id : UnitId}
    (hid : id ∉ t.alive.map (·.1)) (d : Device) :
    (t.pass d).1.table.get? id = none := by
  rw [← keys_pass h.sorted d, ← SortedMap.contains_iff_mem_keys (sorted_pass h.sorted d)] at hid
  simpa [SortedMap.contains] using hid

/-- A run does what its passes do, one after another. -/
theorem device_run (h : t.Kept) (max : Nat) (d : Device) :
    (t.run max d).2.2 = perform (runDeeds max t d) d := by
  induction max generalizing t d with
  | zero => rfl
  | succ max ih =>
    unfold Trampoline.run runDeeds
    split
    · rfl
    · rw [perform_append, ← h.device_pass d]
      exact ih (h.pass d) _

/-- When the end of a unit is reported, the count is not yet used up. -/
theorem live_pos_of_ends (h : t.Kept) {front back : List UnitId} {id : UnitId}
    (hdead : t.deadIds = front ++ id :: back) (d : Device) :
    0 < (front.foldl collect ({ t with table := ⟨(resumeAll t.table.entries d).1⟩ },
      (resumeAll t.table.entries d).2)).1.live := by
  have hsplit := t.length_alive_add_length_deadIds
  have hlength := congrArg List.length hdead
  rw [List.length_append, List.length_cons] at hlength
  rw [foldl_collect, h.live]
  dsimp only
  omega

theorem device_start {id : UnitId} {body : Body} (hdeclared : t.declared.get? id = some body)
    (d : Device) : (t.start id d).2.2 = perform [.begins id, .turn id body] d := by
  rw [start_eq hdeclared]
  rfl

/-- A start puts the unit into the table after its first turn, and leaves the others as they are. -/
theorem get?_start (h : t.Kept) {id : UnitId} {body : Body}
    (hdeclared : t.declared.get? id = some body) (d : Device) (j : UnitId) :
    (t.start id d).2.1.table.get? j
      = if j = id then some (afterTurn ⟨body, .pending, 0⟩ (d.print (startedLine id)))
        else t.table.get? j := by
  rw [start_eq hdeclared]
  exact SortedMap.get?_insert h.sorted id j _

end Kept

/-! ## Who has returned

Whether a body returns depends on the device it is resumed on, and so on those that take their turns
before it. -/

/-- In a pass that starts with this device the body of the unit returns. -/
def ReturnsIn (t : Trampoline Body) (d : Device) (id : UnitId) : Prop :=
  ∃ front b back, t.alive = front ++ (id, b) :: back ∧
    (Coroutine.resume b.body (perform (turnsOf front) d)).returned = true

omit [Coroutine Body] in
theorem Kept.mem_deadIds_iff {t : Trampoline Body} (h : t.Kept) {id : UnitId} :
    id ∈ t.deadIds ↔ ∃ b, t.table.get? id = some b ∧ b.state = .dead := by
  simp only [deadIds, List.mem_map, List.mem_filter, decide_eq_true_iff,
    SortedMap.get?_eq_some_iff h.sorted, Prod.exists, exists_and_right, exists_eq_right]

theorem state_afterTurn_eq_dead_iff {b : Bound Body} {d : Device} :
    (afterTurn b d).state = .dead ↔ (Coroutine.resume b.body d).returned = true := by
  simp [afterTurn]

/-- Those that a pass leaves dead returned in it: the ones that were dead before are gone. -/
theorem Kept.mem_deadIds_pass_iff {t : Trampoline Body} (h : t.Kept) (d : Device) {id : UnitId} :
    id ∈ (t.pass d).1.deadIds ↔ t.ReturnsIn d id := by
  rw [(h.pass d).mem_deadIds_iff]
  constructor
  · rintro ⟨b', hget, hdead⟩
    by_cases hid : id ∈ t.alive.map (·.1)
    · obtain ⟨⟨_, b⟩, he, rfl⟩ := List.mem_map.mp hid
      obtain ⟨front, back, halive⟩ := List.append_of_mem he
      rw [h.get?_pass_of_alive halive d] at hget
      cases hget
      exact ⟨front, b, back, halive, state_afterTurn_eq_dead_iff.mp hdead⟩
    · rw [h.get?_pass_of_not_alive hid d] at hget
      cases hget
  · rintro ⟨front, b, back, halive, hreturned⟩
    exact ⟨_, h.get?_pass_of_alive halive d, state_afterTurn_eq_dead_iff.mpr hreturned⟩

/-- A start adds its unit to the dead if the first turn returns, and otherwise takes it out. -/
theorem Kept.mem_deadIds_start_iff {t : Trampoline Body} (h : t.Kept) {id : UnitId} {body : Body}
    (hdeclared : t.declared.get? id = some body) (d : Device) {j : UnitId} :
    j ∈ (t.start id d).2.1.deadIds ↔
      if j = id then (Coroutine.resume body (d.print (startedLine id))).returned = true
      else j ∈ t.deadIds := by
  rw [(h.start hdeclared d).mem_deadIds_iff, h.get?_start hdeclared d]
  by_cases hj : j = id
  · rw [if_pos hj, if_pos hj]
    simp [state_afterTurn_eq_dead_iff]
  · rw [if_neg hj, if_neg hj, h.mem_deadIds_iff]

/-! ## Sequences of calls

The units whose end is due are followed from call to call by `Call.dueAfter`, which looks only at
the answers of the bodies. The invariant is that these are the units that the table has as dead. -/

/-- A call on a trampoline. Those that resume bodies are given the device. -/
inductive Call (Body : Type) where
  | declare (id : UnitId) (body : Body)
  | start (id : UnitId) (d : Device)
  | pass (d : Device)
  | run (max : Nat) (d : Device)
  | stopAll

/-- The trampoline after a call. -/
def Call.apply (t : Trampoline Body) : Call Body → Trampoline Body
  | .declare id body => t.declare id body
  | .start id d => (t.start id d).2.1
  | .pass d => (t.pass d).1
  | .run max d => (t.run max d).2.1
  | .stopAll => t.stopAll

/-- The trampoline after calls. -/
def after (calls : List (Call Body)) : Trampoline Body :=
  calls.foldl Call.apply initial

/-- After a run, those are due that returned in its last pass, or that were due before if it made
none. -/
def dueAfterRun : Nat → Trampoline Body → Device → (UnitId → Prop) → UnitId → Prop
  | 0, _, _, due => due
  | max + 1, t, d, due =>
    if t.live = 0 then due else dueAfterRun max (t.pass d).1 (t.pass d).2 (t.ReturnsIn d)

/-- The units that are due after a call, if the given ones were due before it. -/
def Call.dueAfter (t : Trampoline Body) (due : UnitId → Prop) : Call Body → UnitId → Prop
  | .declare _ _ => due
  | .start id d => fun j => (j ≠ id ∨ t.declared.get? id = none) ∧ due j ∨
      j = id ∧ ∃ body, t.declared.get? id = some body ∧
        (Coroutine.resume body (d.print (startedLine id))).returned = true
  | .pass d => t.ReturnsIn d
  | .run max d => dueAfterRun max t d due
  | .stopAll => fun _ => False

/-- The trampoline after calls, together with the units whose end is due: those that returned since
the last pass began, in it or in a start after it, and have not been started again or stopped. -/
def watch (calls : List (Call Body)) : Trampoline Body × (UnitId → Prop) :=
  calls.foldl (fun w call => (call.apply w.1, call.dueAfter w.1 w.2)) (initial, fun _ => False)

/-- The units whose end is due after calls. -/
def dueAfter (calls : List (Call Body)) : UnitId → Prop :=
  (watch calls).2

/-- The books of a trampoline with the units whose end is due. -/
structure Watched (w : Trampoline Body × (UnitId → Prop)) : Prop where
  kept : w.1.Kept
  due : ∀ id, id ∈ w.1.deadIds ↔ w.2 id

/-- The step for a pass: whoever was due is reported, and those are due that return in it. -/
theorem Watched.pass {t : Trampoline Body} {due : UnitId → Prop}
    (h : Watched (t, due)) (d : Device) :
    Watched ((t.pass d).1, t.ReturnsIn d) :=
  ⟨h.kept.pass d, fun _ => h.kept.mem_deadIds_pass_iff d⟩

/-- A run preserves the books because each of its passes does. -/
theorem Watched.run {t : Trampoline Body} {due : UnitId → Prop} (h : Watched (t, due)) (max : Nat)
    (d : Device) : Watched ((t.run max d).2.1, dueAfterRun max t d due) := by
  induction max generalizing t d due with
  | zero => exact h
  | succ max ih =>
    unfold Trampoline.run dueAfterRun
    split
    · exact h
    · exact ih (h.pass d) _

theorem Watched.start {t : Trampoline Body} {due : UnitId → Prop}
    (h : Watched (t, due)) (id : UnitId) (d : Device) :
    Watched ((t.start id d).2.1, (Call.start id d).dueAfter t due) := by
  cases hdeclared : t.declared.get? id with
  | none =>
    have hstart : (t.start id d).2.1 = t := by simp only [Trampoline.start, hdeclared]
    rw [hstart]
    refine ⟨h.kept, fun j => ?_⟩
    simp [Call.dueAfter, hdeclared, h.due j]
  | some body =>
    refine ⟨h.kept.start hdeclared d, fun j => ?_⟩
    rw [h.kept.mem_deadIds_start_iff hdeclared d, h.due j]
    by_cases hj : j = id <;> simp [Call.dueAfter, hdeclared, hj]

/-- One call of any kind preserves the books, which gives the invariant of `watched`. -/
theorem Watched.call {w : Trampoline Body × (UnitId → Prop)} (h : Watched w) (call : Call Body) :
    Watched (call.apply w.1, call.dueAfter w.1 w.2) := by
  cases call with
  | declare id body => exact ⟨⟨h.kept.sorted, h.kept.live, h.kept.begun⟩, h.due⟩
  | start id d => exact h.start id d
  | pass d => exact h.pass d
  | run max d => exact h.run max d
  | stopAll =>
    refine ⟨kept_of_empty rfl rfl, fun _ => ?_⟩
    simp [Call.apply, Call.dueAfter, stopAll, deadIds, SortedMap.empty]

theorem watched (calls : List (Call Body)) : Watched (watch calls) := by
  induction calls using List.reverseRecOn with
  | nil =>
    exact ⟨kept_of_empty rfl rfl, fun _ => by simp [watch, initial, deadIds, SortedMap.empty]⟩
  | append_singleton calls call ih =>
    rw [watch, List.foldl_concat]
    exact ih.call call

theorem watch_fst (calls : List (Call Body)) : (watch calls).1 = after calls := by
  induction calls using List.reverseRecOn with
  | nil => rfl
  | append_singleton calls call ih =>
    rw [watch, after, List.foldl_concat, List.foldl_concat, ← after, ← ih]
    rfl

theorem kept_after (calls : List (Call Body)) : (after calls).Kept :=
  watch_fst calls ▸ (watched calls).kept

/-! ## The books

What the calls of the trampoline come to, over any sequence of them. The invariant is `Kept`, and
what is added to it here says which deeds each call is made of. -/

/-- What a start of a unit with a body does. -/
structure Starts (t : Trampoline Body) (id : UnitId) (body : Body) (d : Device) : Prop where
  accepted : (t.start id d).1 = true
  /-- One line is printed, and the body is resumed once. -/
  device : (t.start id d).2.2 = perform [.begins id, .turn id body] d
  /-- What the body is resumed on: all that was printed before, and the line behind it. -/
  printed : (t.start id d).2.2 = (Coroutine.resume body
    { d with output := d.output ++ ["rc:" ++ wordText id ++ ":"] }).device
  unit : (t.start id d).2.1.table.get? id
    = some (afterTurn ⟨body, .pending, 0⟩ (d.print (startedLine id)))
  /-- Whatever else is in the table stays as it is. -/
  others : ∀ j, j ≠ id → (t.start id d).2.1.table.get? j = t.table.get? j

/-- What a pass does. -/
structure GoesAround (t : Trampoline Body) (d : Device) : Prop where
  /-- Those that have not returned are resumed once each, and the others are reported once each. -/
  device : (t.pass d).2 = perform (turnsOf t.alive ++ t.deadIds.map .ends) d
  /-- Behind what the bodies left stands a line for each that was found dead, and nothing else. -/
  printed : (t.pass d).2 = { perform (turnsOf t.alive) d with
    output := (perform (turnsOf t.alive) d).output
      ++ t.deadIds.map fun id => "dc:" ++ wordText id ++ ":" }
  turns_ascend : (t.alive.map (·.1)).Pairwise fun a b => a < b
  ends_ascend : t.deadIds.Pairwise fun a b => a < b
  resumed : ∀ front e back, t.alive = front ++ e :: back →
    (t.pass d).1.table.get? e.1 = some (afterTurn e.2 (perform (turnsOf front) d))
  dropped : ∀ id, id ∈ t.deadIds → (t.pass d).1.table.get? id = none
  /-- Nothing comes into the table. -/
  absent : ∀ id, t.table.get? id = none → (t.pass d).1.table.get? id = none
  /-- The count is above zero each time it is counted down. -/
  counted : ∀ front id back, t.deadIds = front ++ id :: back →
    0 < (front.foldl collect ({ t with table := ⟨(resumeAll t.table.entries d).1⟩ },
      (resumeAll t.table.entries d).2)).1.live

theorem Kept.starts {t : Trampoline Body} (h : t.Kept) {id : UnitId} {body : Body}
    (hdeclared : t.declared.get? id = some body) (d : Device) : t.Starts id body d where
  accepted := by rw [start_eq hdeclared]
  device := Kept.device_start hdeclared d
  printed := Kept.device_start hdeclared d
  unit := by rw [h.get?_start hdeclared d, if_pos rfl]
  others := fun j hj => by rw [h.get?_start hdeclared d, if_neg hj]

theorem Kept.goesAround {t : Trampoline Body} (h : t.Kept) (d : Device) : t.GoesAround d where
  device := h.device_pass d
  printed := by rw [h.device_pass d, passDeeds, perform_append, perform_ends]
  turns_ascend := h.ascending_filter _
  ends_ascend := h.ascending_filter _
  resumed := fun _ _ _ halive => h.get?_pass_of_alive halive d
  dropped := fun id hid =>
    h.get?_pass_of_not_alive (fun halive => (h.mem_keys_iff id).2 halive hid) d
  absent := by
    intro id hid
    refine h.get?_pass_of_not_alive (fun halive => ?_) d
    have hmem := (h.mem_keys_iff id).1.mpr (.inl halive)
    rw [← SortedMap.contains_iff_mem_keys h.sorted, SortedMap.contains, hid] at hmem
    cases hmem
  counted := fun _ _ _ hdead => h.live_pos_of_ends hdead d

/-- The books agree after every sequence of calls. The count is that of the table, no coroutine in
it has yet to begin, and those found dead are the ones that returned since the last pass began; a
unit without a body is not started, a start and a pass do what is said of them, and a run does what
its passes do. -/
theorem books_agree (calls : List (Call Body)) :
    (after calls).live = (after calls).table.size ∧
      (∀ e ∈ (after calls).table.entries, e.2.state ≠ .pending) ∧
      (∀ id, id ∈ (after calls).deadIds ↔ dueAfter calls id) ∧
      (∀ id d, (after calls).declared.get? id = none →
        (after calls).start id d = (false, after calls, d)) ∧
      (∀ id body d, (after calls).declared.get? id = some body → (after calls).Starts id body d) ∧
      (∀ d, (after calls).GoesAround d) ∧
      ∀ max d, ((after calls).run max d).2.2 = perform (runDeeds max (after calls) d) d := by
  have h := kept_after calls
  refine ⟨h.live, h.begun, ?_, ?_, ?_, ?_, ?_⟩
  · intro id
    rw [← watch_fst calls]
    exact (watched calls).due id
  · intro id d hdeclared
    simp only [start, hdeclared]
  · intro id body d hdeclared
    exact h.starts hdeclared d
  · intro d
    exact h.goesAround d
  · intro max d
    exact h.device_run max d

end Trampoline

end BlockLink
