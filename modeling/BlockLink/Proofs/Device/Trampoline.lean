import BlockLink.Proofs.Device.Marks
import BlockLink.Proofs.SortedMap
import Mathlib.Data.List.Induction

/-!
# `BlockLink/Proofs/Device/Trampoline.lean` — what a board prints about its units

The trampoline prints the beginning and the end of each unit, and the units print between them what
they like. While bodies are quiet the marks of a unit say where it is: nothing before it is started,
its beginning while it is in the table, its beginning and its end afterwards (`Tracks`). Starting a
unit and going around the table keep this.

When every body returns at last (`Finishes`), however its turns are interleaved with those of
others, the table is empty after finitely many passes.
-/

set_option autoImplicit false

namespace BlockLink

namespace Trampoline

variable {Body : Type}

/-! ## Dropping

Those that are dead when a pass begins are dropped at its end, when the others have been resumed,
and for each of them one line is printed. -/

/-- The coroutines in the table that have not returned. -/
def alive (t : Trampoline Body) : List (UnitId × Bound Body) :=
  t.table.entries.filter fun e => e.2.state ≠ .dead

theorem mem_alive {t : Trampoline Body} {e : UnitId × Bound Body} :
    e ∈ t.alive ↔ e ∈ t.table.entries ∧ e.2.state ≠ .dead := by
  simp [alive]

theorem length_alive_add_length_deadIds (t : Trampoline Body) :
    t.alive.length + t.deadIds.length = t.table.size := by
  have hsplit := List.length_eq_length_filter_add (l := t.table.entries) fun e => e.2.state = .dead
  simp only [deadIds, List.length_map, alive, SortedMap.size, ne_eq, decide_not]
  omega

/-- Prints the ends of units. -/
def printEnds (ids : List UnitId) (d : Device) : Device :=
  ids.foldl (fun d id => d.print (endedLine id)) d

/-- Dropping the dead one by one erases their entries, takes their number off the count and prints
their ends. -/
theorem foldl_collect (ids : List UnitId) (t : Trampoline Body) (d : Device) :
    ids.foldl collect (t, d) = ({ t with table := ids.foldl (fun m id => m.erase id) t.table
                                         live := t.live - ids.length }, printEnds ids d) := by
  induction ids generalizing t d with
  | nil => rfl
  | cons id ids ih =>
    rw [List.foldl_cons, collect, ih, List.length_cons, Nat.sub_sub, Nat.add_comm 1]
    rfl

variable [Coroutine Body]

/-! ## Resuming

What one turn and a row of turns leave of the coroutines and of the device. -/

/-- A coroutine that is not dead after a turn was resumed on some device and did not return. -/
theorem waits_of_resume {id : UnitId} {b : Bound Body} {d : Device}
    (h : (resume id b d).1.state ≠ .dead) :
    ∃ d', (Coroutine.resume b.body d').returned = false ∧
      (resume id b d).1.body = (Coroutine.resume b.body d').body := by
  refine ⟨if b.state = .pending then d.print (startedLine id) else d, ?_, rfl⟩
  simp only [resume] at h
  cases hreturned : (Coroutine.resume b.body
      (if b.state = .pending then d.print (startedLine id) else d)).returned with
  | false => rfl
  | true => simp [hreturned] at h

theorem state_resume_ne_pending (id : UnitId) (b : Bound Body) (d : Device) :
    (resume id b d).1.state ≠ .pending := by
  simp only [resume]
  generalize (Coroutine.resume b.body _).returned = returned
  cases returned <;> simp

/-- A coroutine that has begun prints no mark of its own in a turn, and neither does the
trampoline. -/
theorem quietTo_resume {id : UnitId} {b : Bound Body} (hstate : b.state ≠ .pending)
    (hb : Quiet b.body) (d : Device) : d.QuietTo (resume id b d).2 := by
  simp only [resume, if_neg hstate]
  exact hb.resume d

/-- What is asked of bodies stays true of them in their turns. -/
def KeptByTurns (P : Body → Prop) : Prop :=
  ∀ b d, P b → (Coroutine.resume b d).returned = false → P (Coroutine.resume b d).body

theorem KeptByTurns.resume {P : Body → Prop} (hP : KeptByTurns P) {id : UnitId} {b : Bound Body}
    {d : Device} (hb : P b.body) (halive : (resume id b d).1.state ≠ .dead) :
    P (resume id b d).1.body := by
  obtain ⟨d', hwaits, hbody⟩ := waits_of_resume halive
  rw [hbody]
  exact hP _ _ hb hwaits

/-- A coroutine of the table before and after it was resumed. -/
def Resumes (e e' : UnitId × Bound Body) : Prop :=
  e'.1 = e.1 ∧ ∃ d, e'.2 = (resume e.1 e.2 d).1

theorem resumeAll_cons_of_dead {id : UnitId} {b : Bound Body} (h : b.state = .dead)
    (es : List (UnitId × Bound Body)) (d : Device) :
    resumeAll ((id, b) :: es) d = ((id, b) :: (resumeAll es d).1, (resumeAll es d).2) := by
  simp only [resumeAll, if_pos h]

theorem resumeAll_cons_of_alive {id : UnitId} {b : Bound Body} (h : b.state ≠ .dead)
    (es : List (UnitId × Bound Body)) (d : Device) :
    resumeAll ((id, b) :: es) d = ((id, (resume id b d).1) :: (resumeAll es (resume id b d).2).1,
      (resumeAll es (resume id b d).2).2) := by
  simp only [resumeAll, if_neg h]

theorem keys_resumeAll (es : List (UnitId × Bound Body)) (d : Device) :
    (resumeAll es d).1.map (·.1) = es.map (·.1) := by
  induction es generalizing d with
  | nil => rfl
  | cons e es ih =>
    obtain ⟨id, b⟩ := e
    by_cases hdead : b.state = .dead
    · rw [resumeAll_cons_of_dead hdead, List.map_cons, ih, List.map_cons]
    · rw [resumeAll_cons_of_alive hdead, List.map_cons, ih, List.map_cons]

/-- Each coroutine that is left was there before and took one turn. -/
theorem exists_resumes {es : List (UnitId × Bound Body)} (h : ∀ e ∈ es, e.2.state ≠ .dead)
    {d : Device} {e' : UnitId × Bound Body} (he' : e' ∈ (resumeAll es d).1) :
    ∃ e ∈ es, Resumes e e' := by
  induction es generalizing d with
  | nil => cases he'
  | cons e es ih =>
    obtain ⟨id, b⟩ := e
    rw [resumeAll_cons_of_alive (h (id, b) List.mem_cons_self)] at he'
    rcases List.mem_cons.mp he' with rfl | he'
    · exact ⟨(id, b), List.mem_cons_self, rfl, d, rfl⟩
    · obtain ⟨e, he, hresumes⟩ := ih (fun e he => h e (List.mem_cons_of_mem _ he)) he'
      exact ⟨e, List.mem_cons_of_mem _ he, hresumes⟩

theorem quietTo_resumeAll {es : List (UnitId × Bound Body)}
    (h : ∀ e ∈ es, e.2.state = .running ∧ Quiet e.2.body) (d : Device) :
    d.QuietTo (resumeAll es d).2 := by
  induction es generalizing d with
  | nil => exact .of_eq rfl
  | cons e es ih =>
    obtain ⟨id, b⟩ := e
    obtain ⟨hstate, hbody⟩ : b.state = .running ∧ Quiet b.body := h (id, b) List.mem_cons_self
    rw [resumeAll_cons_of_alive (by simp [hstate])]
    have hfirst : d.QuietTo (resume id b d).2 := quietTo_resume (by simp [hstate]) hbody d
    exact hfirst.trans (ih (fun e he => h e (List.mem_cons_of_mem _ he)) _)

/-! ## Going around the table

The trampoline first resumes all that have not returned and drops those that had returned before the
pass. So one that returns in a pass is dropped in the next. -/

/-- Those that are dropped need not be in the table while the others are resumed. -/
theorem resumeAll_filter (keep : UnitId → Bool) {es : List (UnitId × Bound Body)}
    (hkeep : ∀ e ∈ es, keep e.1 = true ↔ e.2.state ≠ .dead) (d : Device) :
    (resumeAll es d).1.filter (fun e => keep e.1)
        = (resumeAll (es.filter fun e => e.2.state ≠ .dead) d).1 ∧
      (resumeAll es d).2 = (resumeAll (es.filter fun e => e.2.state ≠ .dead) d).2 := by
  induction es generalizing d with
  | nil => exact ⟨rfl, rfl⟩
  | cons e es ih =>
    obtain ⟨id, b⟩ := e
    have hfirst := hkeep (id, b) List.mem_cons_self
    have hrest : ∀ e ∈ es, keep e.1 = true ↔ e.2.state ≠ .dead :=
      fun e he => hkeep e (List.mem_cons_of_mem _ he)
    by_cases hdead : b.state = .dead
    · have hdropped : keep id ≠ true := fun hk => hfirst.mp hk hdead
      rw [resumeAll_cons_of_dead hdead, List.filter_cons_of_neg (by simpa using hdropped),
        List.filter_cons_of_neg (by simp [hdead])]
      exact ih hrest d
    · have hkept : keep id = true := hfirst.mpr hdead
      obtain ⟨hentries, hdevice⟩ := ih hrest (resume id b d).2
      rw [resumeAll_cons_of_alive hdead, List.filter_cons_of_pos (by simpa using hkept),
        List.filter_cons_of_pos (by simp [hdead]), resumeAll_cons_of_alive hdead, hentries, hdevice]
      exact ⟨rfl, rfl⟩

/-- What a pass does: those that have not returned are resumed and stay, the others are dropped and
their ends are printed. -/
theorem pass_eq {t : Trampoline Body} (ht : t.table.Sorted) (d : Device) :
    t.pass d = ({ t with table := ⟨(resumeAll t.alive d).1⟩, live := t.live - t.deadIds.length },
      printEnds t.deadIds (resumeAll t.alive d).2) := by
  -- Ids are distinct, so being dead can be told from the id.
  have hkeep : ∀ e ∈ t.table.entries, decide (e.1 ∉ t.deadIds) = true ↔ e.2.state ≠ .dead := by
    intro e he
    rw [decide_eq_true_iff, not_iff_not]
    constructor
    · intro hmem
      obtain ⟨e', he', hkey⟩ := List.mem_map.mp hmem
      obtain ⟨he', hdead⟩ := List.mem_filter.mp he'
      have hsame : e'.2 = e.2 := by
        have hget := (SortedMap.get?_eq_some_iff ht).mpr he'
        have hget' := (SortedMap.get?_eq_some_iff ht).mpr he
        rw [hkey] at hget
        exact Option.some.inj (hget.symm.trans hget')
      rw [← hsame]
      simpa using hdead
    · intro hdead
      exact List.mem_map.mpr ⟨e, List.mem_filter.mpr ⟨he, by simpa using hdead⟩, rfl⟩
  have hsorted : SortedMap.Sorted ⟨(resumeAll t.table.entries d).1⟩ :=
    SortedMap.ascending_of_keys (keys_resumeAll t.table.entries d).symm ht
  obtain ⟨hentries, hdevice⟩ := resumeAll_filter (fun id => decide (id ∉ t.deadIds)) hkeep d
  rw [pass]
  dsimp only
  rw [foldl_collect, SortedMap.foldl_erase hsorted, hdevice, hentries]
  rfl

theorem keys_pass {t : Trampoline Body} (ht : t.table.Sorted) (d : Device) :
    (t.pass d).1.table.keys = t.alive.map (·.1) := by
  rw [pass_eq ht]
  exact keys_resumeAll t.alive d

theorem sorted_pass {t : Trampoline Body} (ht : t.table.Sorted) (d : Device) :
    (t.pass d).1.table.Sorted := by
  have halive : SortedMap.Ascending t.alive := ht.sublist List.filter_sublist
  exact SortedMap.ascending_of_keys (keys_pass ht d).symm halive

/-- Each coroutine in the table after a pass was there before it and was resumed. -/
theorem exists_resumes_of_pass {t : Trampoline Body} (ht : t.table.Sorted) {d : Device}
    {e' : UnitId × Bound Body} (he' : e' ∈ (t.pass d).1.table.entries) :
    ∃ e ∈ t.alive, Resumes e e' := by
  rw [pass_eq ht] at he'
  exact exists_resumes (fun e he => (mem_alive.mp he).2) he'

/-- Every coroutine in the table that has not returned has what is asked of bodies. -/
def EveryBody (P : Body → Prop) (t : Trampoline Body) : Prop :=
  ∀ e ∈ t.alive, P e.2.body

theorem EveryBody.pass {P : Body → Prop} (hP : KeptByTurns P) {t : Trampoline Body}
    (ht : t.table.Sorted) (h : t.EveryBody P) (d : Device) : (t.pass d).1.EveryBody P := by
  intro e' he'
  obtain ⟨hmem, halive⟩ := mem_alive.mp he'
  obtain ⟨e, he, -, d', hresumed⟩ := exists_resumes_of_pass ht hmem
  rw [hresumed] at halive ⊢
  exact hP.resume (h e he) halive

/-! ## The books

What is written down about the table is right: the count is its size, and every coroutine in it has
been started. -/

/-- The table is in order, the count is that of the table, and every coroutine in it has begun. -/
structure Kept (t : Trampoline Body) : Prop where
  sorted : t.table.Sorted
  live : t.live = t.table.size
  begun : ∀ e ∈ t.table.entries, e.2.state ≠ .pending

omit [Coroutine Body] in
theorem kept_of_empty {t : Trampoline Body} (ht : t.table = .empty) (hlive : t.live = 0) :
    t.Kept where
  sorted := ht ▸ SortedMap.sorted_empty
  live := by rw [hlive, ht]; rfl
  begun := by
    intro e he
    rw [ht] at he
    cases he

/-- What a start does if the unit has a body: the body is used up, and the unit is put into the
table after its first turn. A unit that is already there is replaced and not counted again. -/
theorem start_eq {t : Trampoline Body} {id : UnitId} {body : Body}
    (hdeclared : t.declared.get? id = some body) (d : Device) :
    t.start id d
      = (true, ⟨t.declared.erase id, t.table.insert id (resume id ⟨body, .pending, 0⟩ d).1,
      if t.table.contains id then t.live else t.live + 1⟩,
      (resume id ⟨body, .pending, 0⟩ d).2) := by
  simp only [start, hdeclared]

namespace Kept

variable {t : Trampoline Body}

omit [Coroutine Body] in
theorem state_of_alive (h : t.Kept) {e : UnitId × Bound Body} (he : e ∈ t.alive) :
    e.2.state = .running := by
  obtain ⟨hmem, hdead⟩ := mem_alive.mp he
  cases hstate : e.2.state with
  | pending => exact absurd hstate (h.begun e hmem)
  | running => rfl
  | dead => exact absurd hstate hdead

omit [Coroutine Body] in
/-- Parts of the table are in order too, so no unit is in them twice. -/
theorem ascending_filter (h : t.Kept) (p : UnitId × Bound Body → Bool) :
    ((t.table.entries.filter p).map (·.1)).Pairwise fun a b => a < b := by
  rw [List.pairwise_map]
  refine (h.sorted.sublist List.filter_sublist).imp ?_
  intro e e' hlt
  exact Std.compare_eq_lt.mp hlt

omit [Coroutine Body] in
theorem nodup_alive (h : t.Kept) : (t.alive.map (·.1)).Nodup :=
  (h.ascending_filter _).imp fun hlt heq => absurd (heq ▸ hlt) (UInt32.lt_irrefl _)

omit [Coroutine Body] in
theorem nodup_deadIds (h : t.Kept) : t.deadIds.Nodup :=
  (h.ascending_filter _).imp fun hlt heq => absurd (heq ▸ hlt) (UInt32.lt_irrefl _)

omit [Coroutine Body] in
/-- A unit in the table has returned or stays for another turn, and not both. -/
theorem mem_keys_iff (h : t.Kept) (id : UnitId) :
    (id ∈ t.table.keys ↔ id ∈ t.alive.map (·.1) ∨ id ∈ t.deadIds) ∧
      (id ∈ t.alive.map (·.1) → id ∉ t.deadIds) := by
  simp only [SortedMap.keys, deadIds, List.mem_map, mem_alive, List.mem_filter, decide_eq_true_iff]
  refine ⟨⟨?_, ?_⟩, ?_⟩
  · rintro ⟨e, he, rfl⟩
    by_cases hdead : e.2.state = .dead
    · exact .inr ⟨e, ⟨he, hdead⟩, rfl⟩
    · exact .inl ⟨e, ⟨he, hdead⟩, rfl⟩
  · rintro (⟨e, ⟨he, -⟩, rfl⟩ | ⟨e, ⟨he, -⟩, rfl⟩)
    · exact ⟨e, he, rfl⟩
    · exact ⟨e, he, rfl⟩
  · rintro ⟨e, ⟨he, halive⟩, rfl⟩ ⟨e', ⟨he', hdead⟩, hkey⟩
    have hget := (SortedMap.get?_eq_some_iff h.sorted).mpr he
    have hget' := (SortedMap.get?_eq_some_iff h.sorted).mpr he'
    rw [hkey, hget] at hget'
    rw [Option.some.inj hget'] at halive
    exact halive hdead

/-- A start leaves the table in order, and counts its unit if it is new. -/
theorem start (h : t.Kept) {id : UnitId} {body : Body} (hdeclared : t.declared.get? id = some body)
    (d : Device) : (t.start id d).2.1.Kept := by
  rw [start_eq hdeclared]
  refine ⟨h.sorted.insert _ _, ?_, ?_⟩
  · rw [SortedMap.size_insert h.sorted, h.live]
  · intro e he
    rcases (SortedMap.mem_store h.sorted).mp he with ⟨-, hbound⟩ | ⟨-, hold⟩
    · rw [hbound]
      exact state_resume_ne_pending _ _ _
    · exact h.begun e hold

/-- A pass takes off the count exactly as many as it drops. -/
theorem pass (h : t.Kept) (d : Device) : (t.pass d).1.Kept where
  sorted := sorted_pass h.sorted d
  live := by
    have hlength := congrArg List.length (keys_resumeAll t.alive d)
    have hsplit := t.length_alive_add_length_deadIds
    rw [List.length_map, List.length_map] at hlength
    rw [pass_eq h.sorted, SortedMap.size, hlength, h.live]
    dsimp only
    omega
  begun := by
    intro e' he'
    obtain ⟨e, he, -, d', hresumed⟩ := exists_resumes_of_pass h.sorted he'
    rw [hresumed]
    exact state_resume_ne_pending _ _ _

end Kept

/-! ## Lives

The life of a unit is the list of its marks on the device. For bodies that print no marks it says
where the unit is. -/

theorem lifeOf_print {line : String} {id : UnitId} {on : Bool}
    (hline : (Event.ofLine line).mark? = some (id, on)) (j : UnitId) (d : Device) :
    lifeOf j (d.print line).output = lifeOf j d.output ++ if j = id then [on] else [] := by
  rw [Device.print, lifeOf_append, lifeOf_of_mark hline]

/-- Each unit of the list gets one end. -/
theorem lifeOf_printEnds {ids : List UnitId} (hids : ids.Nodup) (j : UnitId) (d : Device) :
    lifeOf j (printEnds ids d).output = lifeOf j d.output ++ if j ∈ ids then [false] else [] := by
  induction ids generalizing d with
  | nil => simp [printEnds]
  | cons id ids ih =>
    rw [List.nodup_cons] at hids
    have hstep : printEnds (id :: ids) d = printEnds ids (d.print (endedLine id)) := rfl
    rw [hstep, ih hids.2, lifeOf_print (mark?_endedLine id), List.append_assoc]
    by_cases hj : j = id
    · subst hj
      simp [hids.1]
    · simp [hj]

theorem keptByTurns_quiet : KeptByTurns (Quiet : Body → Prop) :=
  fun _ d hb hwaits c hc => hb c (.step d hwaits hc)

theorem keptByTurns_finishes : KeptByTurns (Finishes : Body → Prop) := by
  intro b d hb hwaits
  cases hb with
  | intro _ hlater => exact hlater d hwaits

/-- The trampoline has started the units with the given ids, and what the device has printed says
where each of them is. -/
structure Tracks (ids : List UnitId) (t : Trampoline Body) (d : Device) : Prop where
  sorted : t.table.Sorted
  live : t.live = t.table.size
  started : ∀ id ∈ t.table.keys, id ∈ ids
  running : ∀ e ∈ t.table.entries, e.2.state ≠ .pending
  quiet : t.EveryBody Quiet
  life : ∀ id, lifeOf id d.output
    = if id ∈ t.table.keys then [true] else if id ∈ ids then [true, false] else []

/-- Before anything is started nothing is in the table and nothing has been printed. -/
theorem tracks_initial {t : Trampoline Body} (ht : t.table = .empty)
    (hlive : t.live = 0) {d : Device} (hd : d.output = []) : Tracks [] t d where
  sorted := (kept_of_empty ht hlive).sorted
  live := (kept_of_empty ht hlive).live
  started := by
    intro id hid
    rw [ht] at hid
    cases hid
  running := (kept_of_empty ht hlive).begun
  quiet := by
    intro e he
    rw [mem_alive, ht] at he
    cases he.1
  life := by
    intro id
    rw [hd, ht]
    simp [lifeOf, marks, SortedMap.keys, SortedMap.empty]

namespace Tracks

variable {ids : List UnitId} {t : Trampoline Body} {d : Device}

theorem kept (h : Tracks ids t d) : t.Kept :=
  ⟨h.sorted, h.live, h.running⟩

/-- A pass adds an end to the life of each unit that it drops, and the turns add nothing. -/
theorem pass (h : Tracks ids t d) : Tracks ids (t.pass d).1 (t.pass d).2 where
  sorted := sorted_pass h.sorted d
  live := (h.kept.pass d).live
  started := by
    intro id hid
    rw [keys_pass h.sorted] at hid
    exact h.started id ((h.kept.mem_keys_iff id).1.mpr (.inl hid))
  running := (h.kept.pass d).begun
  quiet := h.quiet.pass keptByTurns_quiet h.sorted d
  life := by
    intro id
    obtain ⟨hkeys, hdisjoint⟩ := h.kept.mem_keys_iff id
    have hquiet : d.QuietTo (resumeAll t.alive d).2 := quietTo_resumeAll
      (fun e he => ⟨h.kept.state_of_alive he, h.quiet e he⟩) d
    rw [keys_pass h.sorted, pass_eq h.sorted, lifeOf_printEnds h.kept.nodup_deadIds,
      hquiet.lifeOf, h.life]
    by_cases halive : id ∈ t.alive.map (·.1)
    · rw [if_pos (hkeys.mpr (.inl halive)), if_neg (hdisjoint halive), if_pos halive,
        List.append_nil]
    · by_cases hdead : id ∈ t.deadIds
      · have hmem := hkeys.mpr (.inr hdead)
        rw [if_pos hmem, if_pos hdead, if_neg halive, if_pos (h.started id hmem)]
        rfl
      · have hnone : id ∉ t.table.keys := fun hmem => (hkeys.mp hmem).elim halive hdead
        rw [if_neg hnone, if_neg hdead, if_neg halive, List.append_nil]

theorem run (h : Tracks ids t d) (max : Nat) :
    Tracks ids (t.run max d).2.1 (t.run max d).2.2 := by
  induction max generalizing t d with
  | zero => exact h
  | succ max ih =>
    unfold Trampoline.run
    split
    · exact h
    · exact ih h.pass

end Tracks

/-! ## Starting units

A start runs the unit's first turn at once, so it may return before it ever gets into a pass. -/

theorem EveryBody.start {P : Body → Prop} (hP : KeptByTurns P) {t : Trampoline Body}
    (ht : t.table.Sorted) (h : t.EveryBody P) {id : UnitId} {body : Body}
    (hdeclared : t.declared.get? id = some body) (hbody : P body) (d : Device) :
    (t.start id d).2.1.EveryBody P := by
  intro e he
  obtain ⟨hmem, halive⟩ := mem_alive.mp he
  rw [start_eq hdeclared] at hmem
  rcases (SortedMap.mem_store ht).mp hmem with ⟨-, hnew⟩ | ⟨-, hold⟩
  · rw [hnew] at halive ⊢
    exact hP.resume hbody halive
  · exact h e (mem_alive.mpr ⟨hold, halive⟩)

/-- A start adds a beginning to the life of its unit. The unit must not have been started before, as
it would then have a second beginning. -/
theorem Tracks.start {ids : List UnitId} {t : Trampoline Body} {d : Device} (h : Tracks ids t d)
    {id : UnitId} (hid : id ∉ ids) {body : Body} (hdeclared : t.declared.get? id = some body)
    (hbody : Quiet body) : Tracks (ids ++ [id]) (t.start id d).2.1 (t.start id d).2.2 := by
  have hnew : id ∉ t.table.keys := fun hmem => hid (h.started id hmem)
  have hkeys : ∀ j, j ∈ (t.start id d).2.1.table.keys ↔ j = id ∨ j ∈ t.table.keys := by
    intro j
    rw [start_eq hdeclared]
    exact SortedMap.mem_keys_insert h.sorted
  have hkept := h.kept.start hdeclared d
  refine ⟨hkept.sorted, hkept.live, ?_, hkept.begun,
    h.quiet.start keptByTurns_quiet h.sorted hdeclared hbody d, ?_⟩
  · intro j hj
    rw [List.mem_append, List.mem_singleton]
    rcases (hkeys j).mp hj with rfl | hj
    · exact .inr rfl
    · exact .inl (h.started j hj)
  · intro j
    -- The line of the beginning comes first, and the first turn of the body prints no mark behind
    -- it.
    have hlife : lifeOf j (t.start id d).2.2.output
        = lifeOf j d.output ++ if j = id then [true] else [] := by
      rw [start_eq hdeclared, ← lifeOf_print (mark?_startedLine id)]
      exact (hbody.resume (d.print (startedLine id))).lifeOf j
    rw [hlife, h.life]
    by_cases hj : j = id
    · subst hj
      rw [if_neg hnew, if_neg hid, if_pos rfl, if_pos ((hkeys j).mpr (.inl rfl))]
      rfl
    · simp only [hkeys, hj, false_or, if_false, List.append_nil, List.mem_append,
        List.mem_singleton, or_false]

/-- Gives every unit its body, and starts the units in order. -/
def launch (bodies : UnitId → Body) (ids : List UnitId) (d : Device) : Trampoline Body × Device :=
  ids.foldl (fun td id => (td.1.start id td.2).2)
    (ids.foldl (fun t id => t.declare id (bodies id)) initial, d)

section

variable {bodies : UnitId → Body}

omit [Coroutine Body] in
/-- Giving bodies to units touches neither the table nor the count. -/
theorem declare_foldl (bodies : UnitId → Body) (ids : List UnitId) {t : Trampoline Body}
    (ht : t.declared.Sorted) :
    (ids.foldl (fun t id => t.declare id (bodies id)) t).declared.Sorted ∧
      (∀ id ∈ ids, (ids.foldl (fun t id => t.declare id (bodies id)) t).declared.get? id
        = some (bodies id)) ∧
      (ids.foldl (fun t id => t.declare id (bodies id)) t).table = t.table ∧
      (ids.foldl (fun t id => t.declare id (bodies id)) t).live = t.live := by
  induction ids using List.reverseRecOn with
  | nil => exact ⟨ht, fun id hid => absurd hid List.not_mem_nil, rfl, rfl⟩
  | append_singleton ids id ih =>
    obtain ⟨hsorted, hget, htable, hlive⟩ := ih
    rw [List.foldl_concat]
    refine ⟨hsorted.insert _ _, fun j hj => ?_, htable, hlive⟩
    refine (SortedMap.get?_insert hsorted _ _ _).trans ?_
    by_cases hjd : j = id
    · rw [if_pos hjd, hjd]
    · rw [if_neg hjd]
      exact hget j ((List.mem_append.mp hj).resolve_right fun h => hjd (List.mem_singleton.mp h))

/-- Starts in a row. The induction is on the units that are left to be started, which still have
their bodies. -/
theorem start_foldl {P : Body → Prop} (hP : KeptByTurns P) {ids later : List UnitId}
    {t : Trampoline Body} {d : Device} (h : Tracks ids t d) (hbodies : t.EveryBody P)
    (hnodup : later.Nodup) (hnew : ∀ id ∈ later, id ∉ ids) (hsorted : t.declared.Sorted)
    (hdeclared : ∀ id ∈ later, t.declared.get? id = some (bodies id))
    (hquiet : ∀ id ∈ later, Quiet (bodies id)) (hlater : ∀ id ∈ later, P (bodies id)) :
    let launched := later.foldl (fun td id => (td.1.start id td.2).2) (t, d)
    Tracks (ids ++ later) launched.1 launched.2 ∧ launched.1.EveryBody P := by
  induction later generalizing ids t d with
  | nil =>
    rw [List.append_nil]
    exact ⟨h, hbodies⟩
  | cons id later ih =>
    rw [List.nodup_cons] at hnodup
    have hfirst := hdeclared id List.mem_cons_self
    have hstart := h.start (hnew id List.mem_cons_self) hfirst (hquiet id List.mem_cons_self)
    have hstarted : ids ++ id :: later = (ids ++ [id]) ++ later := by simp
    have hrest : (t.start id d).2.1.declared = t.declared.erase id := by rw [start_eq hfirst]
    rw [hstarted]
    refine ih hstart (hbodies.start hP h.sorted hfirst (hlater id List.mem_cons_self) d) hnodup.2
      ?_ ?_ ?_ (fun j hj => hquiet j (List.mem_cons_of_mem _ hj))
      fun j hj => hlater j (List.mem_cons_of_mem _ hj)
    -- What is left to start is still new, declared, and has the same bodies.
    · intro j hj hmem
      rcases List.mem_append.mp hmem with hmem | hmem
      · exact hnew j (List.mem_cons_of_mem _ hj) hmem
      · exact hnodup.1 (List.mem_singleton.mp hmem ▸ hj)
    · rw [hrest]
      exact hsorted.erase id
    · intro j hj
      have hne : j ≠ id := fun heq => hnodup.1 (heq ▸ hj)
      rw [hrest, SortedMap.get?_erase hsorted, if_neg hne]
      exact hdeclared j (List.mem_cons_of_mem _ hj)

/-- A launch tracks its units, and their bodies are still what they were asked to be. -/
theorem tracks_launch {P : Body → Prop} (hP : KeptByTurns P) {ids : List UnitId} (hids : ids.Nodup)
    (hquiet : ∀ id ∈ ids, Quiet (bodies id)) (hbodies : ∀ id ∈ ids, P (bodies id)) {d : Device}
    (hd : d.output = []) :
    Tracks ids (launch bodies ids d).1 (launch bodies ids d).2 ∧
    (launch bodies ids d).1.EveryBody P := by
  obtain ⟨hsorted, hdeclared, htable, hlive⟩ :=
    declare_foldl bodies ids (t := initial) SortedMap.sorted_empty
  have hempty : Tracks [] (ids.foldl (fun t id => t.declare id (bodies id)) initial) d :=
    tracks_initial htable hlive hd
  refine start_foldl hP hempty ?_ hids (fun _ _ => List.not_mem_nil) hsorted
    hdeclared hquiet hbodies
  intro e he
  rw [mem_alive, htable] at he
  cases he.1

end

/-! ## The end

Bodies need not return in a number of turns that is known beforehand. It is enough that each of them
does return, on whatever devices it is resumed. -/

/-- A pass and then a run are a run that may make one pass more. -/
theorem exists_run_of_pass {t : Trampoline Body} {d : Device}
    (h : ∃ max, ((t.pass d).1.run max (t.pass d).2).2.1.live = 0) :
    ∃ max, (t.run max d).2.1.live = 0 := by
  obtain ⟨max, hmax⟩ := h
  by_cases hlive : t.live = 0
  · exact ⟨0, hlive⟩
  · refine ⟨max + 1, ?_⟩
    simp only [run, if_neg hlive]
    exact hmax

theorem size_pass {t : Trampoline Body} (ht : t.table.Sorted) (d : Device) :
    (t.pass d).1.table.size = t.alive.length := by
  have hlength := congrArg List.length (keys_pass ht d)
  rwa [SortedMap.keys, List.length_map, List.length_map] at hlength

namespace Tracks

variable {ids : List UnitId}

/-- If one that is in the table ends, the table gets smaller, and the others are left to
induction. -/
theorem exists_run_of_dead {n : Nat}
    (ih : ∀ {t : Trampoline Body} {d : Device}, Tracks ids t d → t.EveryBody Finishes →
      t.table.size ≤ n → ∃ max, (t.run max d).2.1.live = 0)
    {t : Trampoline Body} {d : Device} (h : Tracks ids t d) (hends : t.EveryBody Finishes)
    (hsize : t.table.size ≤ n + 1) {e : UnitId × Bound Body} (he : e ∈ t.table.entries)
    (hdead : e.2.state = .dead) : ∃ max, (t.run max d).2.1.live = 0 := by
  have hmem : e.1 ∈ t.deadIds := List.mem_map.mpr
    ⟨e, List.mem_filter.mpr ⟨he, by simpa using hdead⟩, rfl⟩
  have hpos := List.length_pos_of_mem hmem
  have hsplit := t.length_alive_add_length_deadIds
  refine exists_run_of_pass (ih h.pass (hends.pass keptByTurns_finishes h.sorted d) ?_)
  rw [size_pass h.sorted]
  omega

/-- Bodies that all return at last leave the table after finitely many passes. The induction is on
the number of coroutines in the table and, among tables that are not smaller, on the turns that the
first of them has left. -/
theorem exists_run (n : Nat) {t : Trampoline Body} {d : Device} (h : Tracks ids t d)
    (hends : t.EveryBody Finishes) (hsize : t.table.size ≤ n) :
    ∃ max, (t.run max d).2.1.live = 0 := by
  induction n generalizing t d with
  | zero =>
    refine ⟨0, ?_⟩
    rw [Trampoline.run, h.live]
    omega
  | succ n ih =>
    cases hentries : t.table.entries with
    | nil => exact ⟨0, by rw [Trampoline.run, h.live, SortedMap.size, hentries]; rfl⟩
    | cons e rest =>
      obtain ⟨id, b⟩ := e
      have hhead : (id, b) ∈ t.table.entries := by rw [hentries]; exact List.mem_cons_self
      by_cases hdead : b.state = .dead
      -- The first one is dead already, so the next pass makes the table smaller.
      · exact exists_run_of_dead ih h hends hsize hhead hdead
      · have hfinishes : Finishes b.body := hends (id, b) (mem_alive.mpr ⟨hhead, hdead⟩)
        -- Otherwise a pass resumes it. It stays in front, and has one turn less left.
        generalize hbody : b.body = body at hfinishes
        induction hfinishes generalizing t d b rest with
        | intro body hlater ihturn =>
          have halive : t.alive = (id, b) :: rest.filter fun e => e.2.state ≠ .dead := by
            rw [alive, hentries, List.filter_cons_of_pos (by simpa using hdead)]
          have hpass : (t.pass d).1.table.entries
              = (id, (resume id b d).1) :: (resumeAll (rest.filter fun e => e.2.state ≠ .dead)
                  (resume id b d).2).1 := by
            rw [pass_eq h.sorted, halive, resumeAll_cons_of_alive hdead]
          have hsmall : (t.pass d).1.table.size ≤ n + 1 := by
            have hsplit := t.length_alive_add_length_deadIds
            rw [size_pass h.sorted]
            omega
          have hfinish := hends.pass keptByTurns_finishes h.sorted d
          have hmem : (id, (resume id b d).1) ∈ (t.pass d).1.table.entries := by
            rw [hpass]
            exact List.mem_cons_self
          apply exists_run_of_pass
          by_cases hreturned : (resume id b d).1.state = .dead
          · exact exists_run_of_dead ih h.pass hfinish hsmall hmem hreturned
          · obtain ⟨d', hwaits, hleft⟩ := waits_of_resume hreturned
            rw [hbody] at hwaits hleft
            exact ihturn d' hwaits h.pass hfinish hsmall _ _ hpass hmem hreturned hleft

/-- When the table is empty, each unit that was started has its beginning and its end. -/
theorem life_of_ended {t : Trampoline Body} {d : Device} (h : Tracks ids t d) (hlive : t.live = 0)
    (id : UnitId) : lifeOf id d.output = if id ∈ ids then [true, false] else [] := by
  have hempty : t.table.entries = [] := by
    rw [h.live, SortedMap.size] at hlive
    exact List.length_eq_zero_iff.mp hlive
  have hkeys : t.table.keys = [] := by rw [SortedMap.keys, hempty]; rfl
  rw [h.life, hkeys, if_neg List.not_mem_nil]

end Tracks

end Trampoline

end BlockLink
