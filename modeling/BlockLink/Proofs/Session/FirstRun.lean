import BlockLink.Proofs.Compile.Diagnostics
import BlockLink.Proofs.Session.Identity

/-!
# `BlockLink/Proofs/Session/FirstRun.lean` — the first run of a session

A session that has run nothing hands out ids from the bottom up. So the units of its first run stand
in its map in the order of the scripts, and the program declares them in that order. The upload
begins at once, and the board's acknowledgements take it to its end.

What a script compiles to depends on its id, not on the scripts compiled in front of it, so a script
that went through goes through again (`compileScripts_again`).
-/

set_option autoImplicit false

namespace BlockLink

/-! ## Adding above -/

theorem SortedMap.store_of_above {K V : Type} [Ord K] [Std.OrientedOrd K] {k : K} {v : V}
    {l : List (K × V)} (h : ∀ e ∈ l, compare e.1 k = .lt) : store k v l = l ++ [(k, v)] := by
  induction l with
  | nil => rfl
  | cons e rest ih =>
    have hgt : compare k e.1 = .gt := Std.OrientedCmp.gt_iff_lt.mpr (h e List.mem_cons_self)
    have hrest := ih fun e' he' => h e' (List.mem_cons_of_mem _ he')
    rw [store, hgt]
    simp only [hrest, List.cons_append]

variable {Origin : Type}

/-- Units whose ids ascend, above those that are there, are added at the end. -/
theorem Session.entries_addUnits (units : SortedMap UnitId (CompiledUnit Origin))
    {new : List (CompiledUnit Origin)} (habove : ∀ e ∈ units.entries, ∀ u ∈ new, e.1 < u.id)
    (hnew : (new.map (·.id)).Pairwise (· < ·)) :
    (addUnits units new).entries = units.entries ++ new.map fun u => (u.id, u) := by
  induction new generalizing units with
  | nil => simp [addUnits]
  | cons u new ih =>
    rw [List.map_cons, List.pairwise_cons] at hnew
    have hinsert : (units.insert u.id u).entries = units.entries ++ [(u.id, u)] :=
      SortedMap.store_of_above fun e he =>
        Std.compare_eq_lt.mpr (habove e he u List.mem_cons_self)
    have hlater : ∀ e ∈ (units.insert u.id u).entries, ∀ u' ∈ new, e.1 < u'.id := by
      intro e he u' hu'
      rw [hinsert, List.mem_append, List.mem_singleton] at he
      rcases he with he | rfl
      · exact habove e he u' (List.mem_cons_of_mem _ hu')
      · exact hnew.1 u'.id (List.mem_map_of_mem hu')
    have hstep : addUnits units (u :: new) = addUnits (units.insert u.id u) new := rfl
    rw [hstep, ih _ hlater hnew.2, hinsert, List.map_cons, List.append_assoc]
    rfl

theorem Session.values_addUnits_empty {units : List (CompiledUnit Origin)}
    (h : (units.map (·.id)).Pairwise (· < ·)) : (addUnits .empty units).values = units := by
  have hentries := Session.entries_addUnits .empty (fun _ he => absurd he List.not_mem_nil) h
  rw [SortedMap.values, hentries]
  exact List.map_map.trans (List.map_id units)

variable [DecidableEq Origin]

/-- New scripts get ids above all that are held, in their order. -/
theorem Registry.Assigns.ascending {r r' : Registry Origin} {origins : List Origin}
    {units : List (CompiledUnit Origin)} (h : r.Assigns origins units r') (hr : r.Valid) {n : Nat}
    (hb : r.Below n) (hn : n + origins.length ≤ UInt32.size) (hnodup : origins.Nodup)
    (hnew : ∀ o ∈ origins, r.idOf o = none) :
    (units.map (·.id)).Pairwise (· < ·) ∧ ∀ u ∈ units, ∀ id o, r.resolve id = some o →
    id < u.id := by
  induction h generalizing n with
  | nil r => exact ⟨List.Pairwise.nil, fun u hu => absurd hu List.not_mem_nil⟩
  | @cons r r' o source origins units h ih =>
    rw [List.length_cons] at hn
    rw [List.nodup_cons] at hnodup
    have hnone : r.idOf o = none := hnew o List.mem_cons_self
    -- The others are still without an id, and theirs will be above the one just given.
    have hlater : ∀ o' ∈ origins, (r.assign o).2.idOf o' = none := by
      intro o' ho'
      have hne : o' ≠ o := by
        rintro rfl
        exact hnodup.1 ho'
      rw [Registry.idOf_assign_of_none hnone, if_neg hne]
      exact hnew o' (List.mem_cons_of_mem _ ho')
    have hself : (r.assign o).2.resolve (r.assign o).1 = some o := by
      rw [hr.resolve_assign_of_none hnone, Registry.assign_of_none hnone, if_pos rfl]
    obtain ⟨hasc, habove⟩ := ih (hr.assign o) (hr.below_assign hb (by omega) o) (by omega) hnodup.2
      hlater
    refine ⟨?_, fun u hu id o' hid => ?_⟩
    · rw [List.map_cons, List.pairwise_cons]
      refine ⟨fun id hid => ?_, hasc⟩
      obtain ⟨u, hu, rfl⟩ := List.mem_map.mp hid
      exact habove u hu _ o hself
    · rcases List.mem_cons.mp hu with rfl | hu
      · simp only [Registry.assign_of_none hnone]
        exact UInt32.lt_iff_toNat_lt.mpr ((hr.lt_freshId hb (by omega)).2 id o' hid)
      · exact habove u hu id o' (hr.resolve_assign_of_some hb (by omega) o hid)

/-! ## Compiling scripts in order -/

/-- Compiling a block gives the text of its code. -/
theorem Block.compileFrom_eq_ok_iff {board : Board} {ctx : Context} {b : Block}
    {s s' : CompileState} {source : String} :
    b.compileFrom board ctx s = (.ok source, s') ↔
      ∃ code, (b.compile board ctx).Gives s code s' ∧ source = code.render := by
  unfold Block.compileFrom CompileM.Gives
  cases (b.compile board ctx).run.run s with
  | mk result t =>
    cases result with
    | error e =>
      constructor
      · intro h
        cases h
      · rintro ⟨code, h, -⟩
        cases h
    | ok code =>
      constructor
      · intro h
        cases h
        exact ⟨code, rfl, rfl⟩
      · rintro ⟨code', h, rfl⟩
        cases h
        rfl

section

variable {board : Board} {yields : Bool} {scripts : List (Origin × Block)} {fresh : List Origin}
  {r : Registry Origin} {state : CompileState}

theorem compileScripts_of_compiled {o : Origin} {block : Block} {source : String}
    {state' : CompileState}
    (h : block.compileFrom board ⟨.id (r.assign o).1, yields⟩ state.forgetPins
      = (.ok source, state')) :
    let later := compileScripts board yields scripts (freshAfter r fresh o) (r.assign o).2 state'
    compileScripts board yields ((o, block) :: scripts) fresh r state
      = { later with result := later.result.map (⟨(r.assign o).1, source, o⟩ :: ·) } := by
  simp only [compileScripts, h, freshAfter]

/-- A request that goes through compiles its first script, and then goes through from there. -/
theorem compileScripts_cons_ok {o : Origin} {block : Block} {units : List (CompiledUnit Origin)}
    (h : (compileScripts board yields ((o, block) :: scripts) fresh r state).result = .ok units) :
    ∃ source state' later,
      block.compileFrom board ⟨.id (r.assign o).1, yields⟩ state.forgetPins = (.ok source, state') ∧
      (compileScripts board yields scripts (freshAfter r fresh o) (r.assign o).2 state').result
        = .ok later ∧
      units = ⟨(r.assign o).1, source, o⟩ :: later ∧
      (compileScripts board yields ((o, block) :: scripts) fresh r state).registry
        = (compileScripts board yields scripts (freshAfter r fresh o) (r.assign o).2
          state').registry ∧
      (compileScripts board yields ((o, block) :: scripts) fresh r state).state
        = (compileScripts board yields scripts (freshAfter r fresh o) (r.assign o).2
          state').state := by
  cases hc : block.compileFrom board ⟨.id (r.assign o).1, yields⟩ state.forgetPins with
  | mk result state' =>
    cases result with
    | error e => simp [compileScripts, hc] at h
    | ok source =>
      rw [compileScripts_of_compiled hc] at h ⊢
      dsimp only at h ⊢
      cases hlater : (compileScripts board yields scripts (freshAfter r fresh o) (r.assign o).2
          state').result with
      | error err => simp [hlater, Except.map] at h
      | ok later =>
        rw [hlater] at h
        exact ⟨source, state', later, rfl, hlater, (Except.ok.inj h).symm, rfl, rfl⟩

theorem nodup_diagnostics {units : List (CompiledUnit Origin)}
    (h : (compileScripts board yields scripts fresh r state).result = .ok units)
    (hs : state.diagnostics.Nodup) :
    (compileScripts board yields scripts fresh r state).state.diagnostics.Nodup := by
  induction scripts generalizing fresh r state units with
  | nil => exact hs
  | cons script scripts ih =>
    obtain ⟨source, state', later, hfirst, hlater, -, -, hstate⟩ := compileScripts_cons_ok h
    obtain ⟨code, hgives, -⟩ := Block.compileFrom_eq_ok_iff.mp hfirst
    rw [hstate]
    exact ih hlater ((Block.onlyReports_compile _ _).nodup hgives hs)

/-- The script compiles under the id it holds, whatever was compiled in front of it. -/
def CompilesIn (board : Board) (yields : Bool) (r : Registry Origin) (script : Origin × Block) :
    Prop :=
  ∃ id source, r.idOf script.1 = some id ∧ ∀ state : CompileState, ∃ state',
    script.2.compileFrom board ⟨.id id, yields⟩ state.forgetPins = (.ok source, state')

/-- Every script of a request that went through compiles again. -/
theorem compilesIn_of_ok {units : List (CompiledUnit Origin)}
    (h : (compileScripts board yields scripts fresh r state).result = .ok units)
    {script : Origin × Block} (hscript : script ∈ scripts) :
    CompilesIn board yields (compileScripts board yields scripts fresh r state).registry
      script := by
  induction scripts generalizing fresh r state units with
  | nil => exact absurd hscript List.not_mem_nil
  | cons first scripts ih =>
    obtain ⟨o, block⟩ := first
    obtain ⟨source, state', later, hfirst, hlater, -, hregistry, -⟩ := compileScripts_cons_ok h
    rw [hregistry]
    rcases List.mem_cons.mp hscript with rfl | hscript
    · have hheld := (compileScripts_ok hlater).idOf_of_some (r.idOf_assign_self o)
      refine ⟨(r.assign o).1, source, hheld, fun other => ?_⟩
      obtain ⟨code, hgives, hsource⟩ := Block.compileFrom_eq_ok_iff.mp hfirst
      obtain ⟨other', hgives', -⟩ := (Block.onlyReports_compile _ _).blind hgives
        other.forgetPins rfl
      exact ⟨other', Block.compileFrom_eq_ok_iff.mpr ⟨code, hgives', hsource⟩⟩
    · exact ih hlater hscript

/-- Scripts that each compile under their id go through together. -/
theorem compileScripts_again (h : ∀ script ∈ scripts, CompilesIn board yields r script)
    (fresh : List Origin) (state : CompileState) :
    ∃ units, (compileScripts board yields scripts fresh r state).result = .ok units := by
  induction scripts generalizing fresh state with
  | nil => exact ⟨[], rfl⟩
  | cons script scripts ih =>
    obtain ⟨o, block⟩ := script
    obtain ⟨id, source, hid, hcompiles⟩ := h (o, block) List.mem_cons_self
    obtain ⟨state', hfirst⟩ := hcompiles state
    have hassign : r.assign o = (id, r) := Registry.assign_of_some hid
    obtain ⟨units, hunits⟩ := ih (fun script hscript => h script (List.mem_cons_of_mem _ hscript))
      (freshAfter r fresh o) state'
    have hfirst : block.compileFrom board ⟨.id (r.assign o).1, yields⟩ state.forgetPins
        = (.ok source, state') := by
      rw [hassign]
      exact hfirst
    refine ⟨⟨id, source, o⟩ :: units, ?_⟩
    rw [compileScripts_of_compiled hfirst, hassign]
    simp only [hunits, Except.map]

end

/-! ## Acknowledging an upload -/

namespace Session

/-- Acknowledgements take the steps of the upload, one each. -/
theorem frames_acks (s : Session Origin) (n : Nat) :
    s.frames (List.replicate n (.line "C")) = (Upload.drainFor n s.upload).1 := by
  induction n generalizing s with
  | zero => rfl
  | succ n ih =>
    rw [List.replicate_succ, frames, ih, perform_ack]
    dsimp only
    cases hu : s.upload.current with
    | none => simp [Upload.chunkReady_of_idle hu, Upload.drainFor_of_idle hu]
    | some t =>
      obtain ⟨frame, u, hready⟩ : ∃ frame u, s.upload.chunkReady = (some frame, u) := by
        have hanswers := s.upload.answers
        generalize s.upload.chunkReady = answer at hanswers ⊢
        cases hanswers with
        | idle hnone => exact absurd (hu.symm.trans hnone) (by simp)
        | queued _ _ | pending _ _ _ | done _ _ _ => exact ⟨_, _, rfl⟩
      rw [Upload.drainFor_succ hready, hready]
      rfl

/-- Nothing is shown for them but the end of the upload. -/
theorem shown_acks (s : Session Origin) (n : Nat) {f : Feedback Origin}
    (hf : f ∈ s.shown (List.replicate n (.line "C"))) : f = .status .uploaded := by
  induction n generalizing s with
  | zero => exact absurd hf List.not_mem_nil
  | succ n ih =>
    rw [List.replicate_succ, shown, List.mem_append] at hf
    rcases hf with hf | hf
    · rw [perform_ack] at hf
      dsimp only at hf
      split at hf
      · exact List.mem_singleton.mp hf
      · exact absurd hf List.not_mem_nil
    · exact ih _ hf

/-! ## The first run -/

variable {board : Board} {settings : Settings} {scripts : List (Origin × Block)}
  {units : List (CompiledUnit Origin)}

/-- The first run begins an upload, and shows every diagnostic. -/
theorem run_new (h : ((new board settings : Session Origin).compiled scripts).result = .ok units) :
    let s : Session Origin := new board settings
    ∃ transfer, transfer = Transfer.ofProgram (s.programOf scripts units) s.upload.chunkSize ∧
      s.run scripts = ⟨.ok (some .uploadStart),
        (s.compiled scripts).state.diagnostics.map (fun d => .status (.inert d))
          ++ [.status (.uploading transfer.pending.length)],
        { s.loaded scripts units with upload := { s.upload with current := some transfer } }⟩ := by
  intro s
  refine ⟨_, rfl, ?_⟩
  have hsend : s.upload.send (s.programOf scripts units) = _ := Upload.send_of_idle rfl nofun
  have hall : s.unreported (s.compiled scripts).state.diagnostics
      = (s.compiled scripts).state.diagnostics := by
    unfold unreported
    exact List.filter_eq_self.mpr fun d _ => rfl
  rw [run_of_ok h, hsend, showReports, hall]
  rfl

theorem assigns_new
    (h : ((new board settings : Session Origin).compiled scripts).result = .ok units) :
    Registry.Assigns .empty (scripts.map (·.1)) units
      ((new board settings : Session Origin).compiled scripts).registry :=
  compileScripts_ok h

omit [DecidableEq Origin] in
theorem length_le_of_count (hcount : scripts.length ≤ UInt32.size) :
    0 + (scripts.map (·.1)).length ≤ UInt32.size := by
  rw [Nat.zero_add, List.length_map]
  exact hcount

/-- While there are ids for them, the units of new scripts stand in the order of the scripts. -/
theorem ascending_new
    (h : ((new board settings : Session Origin).compiled scripts).result = .ok units)
    (hnodup : (scripts.map (·.1)).Nodup) (hcount : scripts.length ≤ UInt32.size) :
    (units.map (·.id)).Pairwise (· < ·) :=
  ((assigns_new h).ascending Registry.valid_empty Registry.below_empty
    (length_le_of_count hcount) hnodup
    fun _ _ => rfl).1

end Session

end BlockLink
