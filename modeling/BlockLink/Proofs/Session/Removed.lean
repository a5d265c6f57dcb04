import Mathlib.Data.List.Induction
import BlockLink.Proofs.Event
import BlockLink.Proofs.Session.Invariant

/-!
# `BlockLink/Proofs/Session/Removed.lean` — lines of a script that was removed

A script that is removed in the editor goes on running on the board, and prints lines under the id
it had. They are ignored as long as nobody holds the id. The id is free, though: a fresh id is one
more than the largest held, so scripts that are run later can be given the same one, and then the
lines of the removed script are taken for theirs.

`Registry.given` lists the ids that a request hands out. The main statement is that lines of a
removed script are ignored exactly as long as its id is not among them.
-/

set_option autoImplicit false

namespace BlockLink

variable {Origin : Type}

/-! ## Ids that are handed out -/

namespace Registry

variable [DecidableEq Origin]

/-- The largest id that is held is the last key. -/
theorem Valid.lastKey?_eq {r : Registry Origin} (h : r.Valid) {id : UnitId} {o : Origin}
    (hid : r.resolve id = some o) (hmax : ∀ j o', r.resolve j = some o' → j.toNat ≤ id.toNat) :
    r.bindings.lastKey? = some id := by
  refine h.sorted.lastKey?_eq_some_iff.mpr ⟨List.mem_map_of_mem (h.mem_iff.mpr hid), fun j hj => ?_⟩
  obtain ⟨⟨j, o'⟩, hmem, rfl⟩ := List.mem_map.mp hj
  rw [Std.isLE_compare, UInt32.le_iff_toNat_le]
  exact hmax j o' (h.mem_iff.mp hmem)

/-- The ids that assigning scripts in order hands out. A script that holds an id gets no new one. -/
def given (r : Registry Origin) : List Origin → List UnitId
  | [] => []
  | o :: origins =>
    (if (r.idOf o).isNone then [r.freshId] else []) ++ (r.assign o).2.given origins

theorem given_of_some {r : Registry Origin} {o : Origin} {id : UnitId} (h : r.idOf o = some id)
    (origins : List Origin) : r.given (o :: origins) = r.given origins := by
  rw [given, h, assign_of_some h]
  rfl

theorem given_of_none {r : Registry Origin} {o : Origin} (h : r.idOf o = none)
    (origins : List Origin) :
    r.given (o :: origins) = r.freshId :: (r.assign o).2.given origins := by
  rw [given, h]
  rfl

/-- An id is free afterwards if it was and was not handed out. This holds even when ids wrap. -/
theorem Assigns.resolve_eq_none_iff {r r' : Registry Origin} {origins : List Origin}
    {units : List (CompiledUnit Origin)} (h : Assigns r origins units r') (hr : r.Valid)
    (id : UnitId) : r'.resolve id = none ↔ r.resolve id = none ∧ id ∉ r.given origins := by
  induction h with
  | nil r => simp [given]
  | @cons r r' o source origins units h ih =>
    rw [ih (hr.assign o)]
    cases ho : r.idOf o with
    | some id' => rw [given_of_some ho, assign_of_some ho]
    | none =>
      rw [given_of_none ho, List.mem_cons, not_or, hr.resolve_assign_of_none ho]
      by_cases hid : id = r.freshId
      · simp [hid]
      · simp [hid]

/-- While ids are counted, the fresh ids of a request follow each other. -/
theorem Valid.freshId_assign {r : Registry Origin} (h : r.Valid) {n : Nat} (hb : r.Below n)
    (hn : n + 1 < UInt32.size) {o : Origin} (ho : r.idOf o = none) :
    (r.assign o).2.freshId.toNat = r.freshId.toNat + 1 := by
  obtain ⟨hle, hlt⟩ := h.lt_freshId hb (by omega)
  have hlast : (r.assign o).2.bindings.lastKey? = some r.freshId := by
    apply (h.assign o).lastKey?_eq (o := o)
    · rw [h.resolve_assign_of_none ho, if_pos rfl]
    · intro j o' hj
      rw [h.resolve_assign_of_none ho] at hj
      by_cases hjf : j = r.freshId
      · rw [hjf]
      · rw [if_neg hjf] at hj
        exact Nat.le_of_lt (hlt j o' hj)
  rw [freshId, hlast]
  show (r.freshId + 1).toNat = _
  rw [UInt32.toNat_add]
  have hsize : UInt32.size = 4294967296 := rfl
  exact Nat.mod_eq_of_lt (by simp only [UInt32.toNat_one]; omega)

/-- While ids are counted, a request is given the ids from the fresh one on, one for each script
without. -/
theorem Valid.mem_given_iff {r : Registry Origin} (h : r.Valid) {n : Nat} (hb : r.Below n)
    {origins : List Origin} (hn : n + origins.length < UInt32.size) (id : UnitId) :
    id ∈ r.given origins ↔
      r.freshId.toNat ≤ id.toNat ∧ id.toNat < r.freshId.toNat + r.newIds origins := by
  induction origins generalizing r n with
  | nil =>
    simp only [given, newIds, List.not_mem_nil, false_iff]
    omega
  | cons o origins ih =>
    rw [List.length_cons] at hn
    cases ho : r.idOf o with
    | some id' =>
      have hnew : r.newIds (o :: origins) = r.newIds origins := by
        simp [newIds, ho, assign_of_some ho]
      rw [given_of_some ho, hnew]
      exact ih h hb (by omega)
    | none =>
      have hnew : r.newIds (o :: origins) = 1 + (r.assign o).2.newIds origins := by
        simp [newIds, ho]
      -- The next fresh id is one more, so the interval goes on where this one ends.
      have hnext := ih (h.assign o) (h.below_assign hb (by omega) o) (by omega)
      rw [h.freshId_assign hb (by omega) ho] at hnext
      rw [given_of_none ho, hnew, List.mem_cons, hnext, ← UInt32.toNat_inj]
      omega

end Registry

/-! ## Lines about an id -/

/-- The event is about the unit with an id. -/
def Event.Concerns (id : UnitId) : Event → Prop
  | .threadStarted id' _ | .threadEnded id' _ | .reporterResult (.id id') _ => id' = id
  | _ => False

namespace Session

/-- Lines about an id do nothing and show nothing. -/
def Ignores (s : Session Origin) (id : UnitId) : Prop :=
  ∀ text, (Event.ofLine text).Concerns id → s.handleLine text = ⟨none, [], s⟩

/-- Lines about an id are ignored exactly if nobody holds it. -/
theorem ignores_iff {s : Session Origin} {id : UnitId} :
    s.Ignores id ↔ s.registry.resolve id = none := by
  constructor
  · intro hignores
    -- The line with which a unit starts is shown whenever somebody holds its id.
    have hstarted := Event.ofLine_started id ""
    cases hid : s.registry.resolve id with
    | none => rfl
    | some o =>
      have hline := hignores _ (by rw [hstarted]; rfl)
      rw [handleLine_started hstarted hid] at hline
      cases hline
  · intro hid text hconcerns
    unfold handleLine
    cases hevent : Event.ofLine text with
    | threadStarted id' data | threadEnded id' data =>
      rw [hevent] at hconcerns
      obtain rfl : id' = id := hconcerns
      simp only [handleEvent, hid]
    | reporterResult unit value =>
      rw [hevent] at hconcerns
      cases unit with
      | adhoc => exact hconcerns.elim
      | id id' =>
        obtain rfl : id' = id := hconcerns
        simp only [handleEvent, hid]
    | chunkReady | pinValue _ _ | variableValue _ _ | deviceReady | unrecognized _ =>
      rw [hevent] at hconcerns
      exact hconcerns.elim

variable [DecidableEq Origin]

/-- The ids that an operation hands out: those of a request that goes through. -/
def handedOut (s : Session Origin) : Operation Origin → List UnitId
  | .run scripts =>
    if (s.run scripts).result.isOk then s.registry.given (scripts.map (·.1)) else []
  | _ => []

/-- An effect that hands out no ids leaves a free id free. -/
theorem Effect.resolve_eq_none {s s' : Session Origin} {op : Operation Origin}
    (h : Effect s op s') (hs : s.Valid) (hop : ∀ scripts, op ≠ .run scripts) {id : UnitId}
    (hid : s.registry.resolve id = none) : s'.registry.resolve id = none := by
  cases h with
  | kept registry units upload =>
    rw [registry]
    exact hid
  | failed _ | sent _ => exact absurd rfl (hop _)
  | cleared _ => exact Registry.resolve_empty id
  | @released o id' ho =>
    cases hres : (s.registry.freeOrigin o).2.resolve id with
    | none => rfl
    | some o' =>
      have hheld := (hs.registry.of_resolve_freeOrigin hres).1
      rw [hid] at hheld
      cases hheld
  | cancelled | stepped | ended _ _ => exact hid

/-- Running scripts leaves the registry that compiling them does, whether they compile or not. -/
theorem registry_perform_run (s : Session Origin) (scripts : List (Origin × Block)) :
    (s.perform (.run scripts)).session.registry = (s.compiled scripts).registry := by
  cases hc : (s.compiled scripts).result with
  | error err => simp only [perform, run_of_error hc]
  | ok units =>
    simp only [perform, run_of_ok hc]
    rfl

/-- An operation lets somebody hold a free id only by handing it out. -/
theorem resolve_perform_eq_none_iff {s : Session Origin} (hs : s.Valid) {id : UnitId}
    (hid : s.registry.resolve id = none) (op : Operation Origin) :
    (s.perform op).session.registry.resolve id = none ↔ id ∉ s.handedOut op := by
  have heffect := s.perform_effect op
  cases op with
  | run scripts =>
    rw [registry_perform_run]
    simp only [handedOut, run_isOk]
    cases hc : (s.compiled scripts).result with
    | error err =>
      simp only [Except.isOk, Except.toBool]
      refine ⟨fun _ => List.not_mem_nil, fun _ => ?_⟩
      -- What a failed request leaves bound was bound before.
      cases hres : (s.compiled scripts).registry.resolve id with
      | none => rfl
      | some o =>
        have hheld := ((compileScripts_error hc hs.registry).2.1 id o hres).1
        rw [hid] at hheld
        cases hheld
    | ok units =>
      simp only [Except.isOk, Except.toBool, if_true]
      have hassigns := (compileScripts_ok hc).resolve_eq_none_iff hs.registry id
      exact hassigns.trans (and_iff_right hid)
  | evaluate _ _ | stopAll | suspendAll | resumeAll | wakeUp | removeChain _ | linkFailed _
  | line _ =>
    refine iff_of_true ?_ List.not_mem_nil
    exact heffect.resolve_eq_none hs (fun scripts hf => by cases hf) hid

/-- A free id stays free over a run exactly if it is never handed out. -/
theorem free_throughout_iff {s : Session Origin} (hs : s.Valid) {id : UnitId}
    (hid : s.registry.resolve id = none) (ops : List (Operation Origin)) :
    (∀ before later, ops = before ++ later → (s.after before).registry.resolve id = none) ↔
      ∀ before op later, ops = before ++ op :: later → id ∉ (s.after before).handedOut op := by
  have hvalid : ∀ before, (s.after before).Valid :=
    after_induction hs fun s op hs => hs.effect (s.perform_effect op)
  constructor
  · intro hfree before op later hops
    have hops' : ops = (before ++ [op]) ++ later := by simp [hops]
    have hafter := hfree (before ++ [op]) later hops'
    rw [after_concat] at hafter
    exact (resolve_perform_eq_none_iff (hvalid before) (hfree before _ hops) op).mp hafter
  · intro hnever before
    induction before using List.reverseRecOn with
    | nil => exact fun _ _ => hid
    | append_singleton before op ih =>
      intro later hops
      have hops' : ops = before ++ op :: later := by simp [hops]
      rw [after_concat]
      exact (resolve_perform_eq_none_iff (hvalid before) (ih _ hops') op).mpr
        (hnever before op later hops')

theorem handedOut_of_ok {s : Session Origin} {scripts : List (Origin × Block)}
    (h : (s.run scripts).result.isOk = true) :
    s.handedOut (.run scripts) = s.registry.given (scripts.map (·.1)) :=
  if_pos h

/-- Whatever happened before a script is removed, and whatever happens later: lines about the id
that it held are ignored all along exactly if the id is never handed out again. Up to the last id
there is, a request that goes through hands out the ids that follow the largest held, as many as it
has scripts without one. -/
theorem stale_lines_ignored_iff (board : Board) (settings : Settings)
    (ops later : List (Operation Origin)) {o : Origin} {id : UnitId}
    (hheld : ((new board settings).after ops).registry.idOf o = some id) :
    let gone := (((new board settings).after ops).removeChain o).2
    ((∀ before rest, later = before ++ rest → (gone.after before).Ignores id) ↔
      ∀ before op rest, later = before ++ op :: rest → id ∉ (gone.after before).handedOut op) ∧
    (chainsRun ops + chainsRun later < UInt32.size →
      ∀ before scripts rest, later = before ++ .run scripts :: rest →
        ((gone.after before).run scripts).result.isOk = true →
        let r := (gone.after before).registry
        (id ∈ (gone.after before).handedOut (.run scripts) ↔
          r.freshId.toNat ≤ id.toNat ∧
            id.toNat < r.freshId.toNat + r.newIds (scripts.map (·.1)))) := by
  intro gone
  have hgone : gone = _ := congrArg Prod.snd (removeChain_of_some hheld)
  refine ⟨?_, fun hfew before scripts rest hlater hok => ?_⟩
  · have hvalid := valid_after board settings ops
    -- Behind the removal nobody holds the id, whatever the ids.
    have hfree : gone.registry.resolve id = none := by
      cases hres : gone.registry.resolve id with
      | none => rfl
      | some o' =>
        rw [hgone] at hres
        exact absurd hheld (hvalid.registry.resolve_freeOrigin_iff.mp hres).2
    have hvalid' : gone.Valid := by
      rw [hgone]
      exact hvalid.effect (.released hheld)
    simp only [ignores_iff]
    exact free_throughout_iff hvalid' hfree later
  · rw [hlater, chainsRun_append, chainsRun] at hfew
    have hchains : Operation.chains (.run scripts) = scripts.length := rfl
    -- While ids have not wrapped, the ids of a request are counted from the fresh one.
    have hbound : gone.Bound (0 + chainsRun ops) := by
      rw [hgone]
      exact ((bound_new board settings).after (by omega)).released hheld
    have hbefore : (gone.after before).Bound (0 + chainsRun ops + chainsRun before) :=
      hbound.after (by omega)
    rw [handedOut_of_ok hok]
    apply hbefore.registry.mem_given_iff hbefore.below
    rw [List.length_map]
    omega

/-- A script with a larger id is still there: what is run next gets an id above both. -/
theorem stale_lines_ignored_below :
    let ops : List (Operation Nat) :=
      [.run [(1, .mk "doStopThis" .command [] none), (3, .mk "doStopThis" .command [] none)]]
    let later : List (Operation Nat) := [.run [(2, .mk "doStopThis" .command [] none)]]
    ((new .blank {}).after ops).registry.idOf 1 = some 0 ∧
      ((((new .blank {}).after ops).removeChain 1).2.after later).Ignores 0 := by
  intro ops later
  have hheld : ((new .blank {}).after ops).registry.idOf 1 = some 0 := by decide +kernel
  refine ⟨hheld, (stale_lines_ignored_iff .blank {} ops later hheld).1.mpr ?_ later [] rfl⟩
  intro before op rest hlater
  cases before with
  | nil =>
    obtain ⟨rfl, -⟩ := List.cons.inj hlater
    decide +kernel
  | cons first before => simp [later] at hlater

/-- A script is removed while it runs, and the next one that is run gets its id: the line with which
the removed one starts lights up the other. -/
theorem stale_line_highlights_another :
    let ops : List (Operation Nat) := [.run [(1, .mk "doStopThis" .command [] none)]]
    let later : List (Operation Nat) := [.run [(2, .mk "doStopThis" .command [] none)]]
    ((new .blank {}).after ops).registry.idOf 1 = some 0 ∧
      ((new .blank {}).after ops).units.contains 0 = true ∧
      (((((new .blank {}).after ops).removeChain 1).2.after later).handleLine "rc:0:").shown
        = [.highlight 2 true] := by
  intro ops later
  refine ⟨by decide +kernel, by decide +kernel, ?_⟩
  have hstarted : Event.ofLine "rc:0:" = .threadStarted 0 "" := by decide +kernel
  -- The registry is known before the two programs are compared.
  have hregistry : ∀ s : Session Nat, (s.after later).registry
      = (s.compiled [(2, .mk "doStopThis" .command [] none)]).registry :=
    fun s => s.registry_perform_run _
  have hid : ((((new .blank {}).after ops).removeChain 1).2.after later).registry.resolve 0
      = some 2 := by
    rw [hregistry]
    decide +kernel
  rw [handleLine_started hstarted hid]

end Session

end BlockLink
