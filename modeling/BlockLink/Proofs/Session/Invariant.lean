import BlockLink.Proofs.Session.Compile
import BlockLink.Proofs.Session.Operation

/-!
# `BlockLink/Proofs/Session/Invariant.lean` — what an operation can do, and what it keeps

`Effect` says once what an operation can do to the registry, the live units and the upload, guards
included, and `perform_effect` that it can do nothing else. Both invariants of a session are read
off it. `Valid` holds of every session there can be. `Bound` ties the live units to the registry and
the registry's two tables to each other, and needs ids that have not wrapped, so it counts the
scripts that were run.
-/

set_option autoImplicit false

namespace BlockLink

namespace Session

variable {Origin : Type}

/-! ## Adding units -/

section

variable {units : SortedMap UnitId (CompiledUnit Origin)} {new : List (CompiledUnit Origin)}

theorem sorted_addUnits (h : units.Sorted) : (addUnits units new).Sorted := by
  induction new generalizing units with
  | nil => exact h
  | cons u new ih => exact ih (h.insert u.id u)

/-- A unit that is there was there before or is one of those added. -/
theorem get?_addUnits (h : units.Sorted) {id : UnitId} {u : CompiledUnit Origin}
    (hu : (addUnits units new).get? id = some u) :
    units.get? id = some u ∨ (u ∈ new ∧ u.id = id) := by
  induction new generalizing units with
  | nil => exact Or.inl hu
  | cons u' new ih =>
    rcases ih (h.insert u'.id u') hu with hold | ⟨hmem, hid⟩
    · rw [SortedMap.get?_insert h] at hold
      by_cases hid : id = u'.id
      · rw [if_pos hid] at hold
        obtain rfl : u' = u := Option.some.inj hold
        exact Or.inr ⟨List.mem_cons_self, hid.symm⟩
      · rw [if_neg hid] at hold
        exact Or.inl hold
    · exact Or.inr ⟨List.mem_cons_of_mem _ hmem, hid⟩

/-- The ids are those from before and those of the units added. -/
theorem contains_addUnits (h : units.Sorted) {id : UnitId} :
    (addUnits units new).contains id = true ↔
      units.contains id = true ∨ id ∈ new.map (·.id) := by
  induction new generalizing units with
  | nil => simp [addUnits]
  | cons u new ih =>
    have hstep : addUnits units (u :: new) = addUnits (units.insert u.id u) new := rfl
    rw [hstep, ih (h.insert u.id u), SortedMap.contains_insert h, List.map_cons, List.mem_cons,
      or_assoc]

end

/-! ## The invariants -/

variable [DecidableEq Origin]

structure Valid (s : Session Origin) : Prop where
  registry : s.registry.Valid
  units : s.units.Sorted
  upload : s.upload.Settled

theorem valid_new (board : Board) (settings : Settings) :
    (new board settings : Session Origin).Valid where
  registry := Registry.valid_empty
  units := SortedMap.sorted_empty
  upload := fun _ => rfl

/-- Every live unit is the one its id stands for, the registry's tables are inverse, and ids are
below a count. -/
structure Bound (s : Session Origin) (n : Nat) : Prop extends Valid s where
  exact : s.registry.Exact
  below : s.registry.Below n
  bound : ∀ id u, s.units.get? id = some u → u.id = id ∧ s.registry.resolve id = some u.origin

theorem bound_new (board : Board) (settings : Settings) :
    (new board settings : Session Origin).Bound 0 where
  toValid := valid_new board settings
  exact := Registry.exact_empty
  below := fun _ _ h => absurd h (by simp [new, Registry.resolve_empty])
  bound := fun _ _ h => absurd h (by simp [new, SortedMap.get?_empty])

/-! ## One operation -/

/-- What an operation can do to the registry, the live units and the upload. -/
inductive Effect (s : Session Origin) : Operation Origin → Session Origin → Prop where
  | kept {op : Operation Origin} {s' : Session Origin} (registry : s'.registry = s.registry)
      (units : s'.units = s.units) (upload : s'.upload = s.upload)
      (settings : s'.settings = s.settings) : Effect s op s'
  | failed {scripts : List (Origin × Block)} {err : Origin × CompileError}
      (h : (s.compiled scripts).result = .error err) :
      Effect s (.run scripts) { s with registry := (s.compiled scripts).registry }
  | sent {scripts : List (Origin × Block)} {units : List (CompiledUnit Origin)}
      (h : (s.compiled scripts).result = .ok units) :
      Effect s (.run scripts)
        { s.loaded scripts units with upload := (s.upload.send (s.programOf scripts units)).2 }
  | cleared {op : Operation Origin} (hop : op.Clears) : Effect s op s.clear.2
  | cancelled {e : LinkError} : Effect s (.linkFailed e) { s with upload := s.upload.cancel }
  | released {o : Origin} {id : UnitId} (h : s.registry.idOf o = some id) :
      Effect s (.removeChain o)
        { s with registry := (s.registry.freeOrigin o).2, units := s.units.erase id }
  | stepped {text : String} : Effect s (.line text) { s with upload := s.upload.chunkReady.2 }
  | ended {text data : String} {id : UnitId} (hline : Event.ofLine text = .threadEnded id data)
      (halive : s.units.contains id = true) :
      Effect s (.line text)
        { s with units := s.units.erase id, upload := s.upload.forgetSent }

/-- A line tells the end of a unit, takes a step of the upload, or changes none of the three. -/
theorem handleLine_effect (s : Session Origin) (text : String) :
    Effect s (.line text) (s.handleLine text).session := by
  unfold handleLine
  cases he : Event.ofLine text with
  | chunkReady => exact .stepped
  | reporterResult unit value =>
    cases unit with
    | adhoc => simp only [handleEvent]; split <;> exact .kept rfl rfl rfl rfl
    | id n => simp only [handleEvent]; split <;> exact .kept rfl rfl rfl rfl
  | threadStarted id data => simp only [handleEvent]; split <;> exact .kept rfl rfl rfl rfl
  | threadEnded id data =>
    simp only [handleEvent]
    split
    · simp only [unitEnded]
      split
      -- The registry knows the unit, and it was alive.
      · rename_i halive
        exact .ended he halive
      · exact .kept rfl rfl rfl rfl
    · exact .kept rfl rfl rfl rfl
  | pinValue pin value => exact .kept rfl rfl rfl rfl
  | variableValue name value => exact .kept rfl rfl rfl rfl
  | deviceReady => simp only [handleEvent]; split <;> exact .kept rfl rfl rfl rfl
  | unrecognized line => exact .kept rfl rfl rfl rfl

/-- An operation has one of the effects, whatever the session. -/
theorem perform_effect (s : Session Origin) (op : Operation Origin) :
    Effect s op (s.perform op).session := by
  cases op with
  | run scripts =>
    cases hc : (s.compiled scripts).result with
    | error err =>
      simp only [perform, run_of_error hc]
      exact .failed hc
    | ok units =>
      simp only [perform, run_of_ok hc]
      exact .sent hc
  | evaluate origin block =>
    rcases s.evaluate_cases origin block with ⟨e, he⟩ | ⟨line, ds, he⟩
    · simp only [perform, he]
      exact .kept rfl rfl rfl rfl
    · simp only [perform, he]
      exact .kept rfl rfl rfl rfl
  | stopAll => exact .cleared trivial
  | suspendAll | resumeAll | wakeUp => exact .kept rfl rfl rfl rfl
  | removeChain origin =>
    cases hid : s.registry.idOf origin with
    | none =>
      simp only [perform, removeChain_of_none hid]
      exact .kept rfl rfl rfl rfl
    | some id =>
      simp only [perform, removeChain_of_some hid]
      exact .released hid
  | linkFailed e =>
    cases e with
    | closed => exact .cleared trivial
    | writeContention _ | io _ | deviceUnresponsive => exact .cancelled
  | line text => exact s.handleLine_effect text

/-! ## Every session -/

/-- No effect breaks the first invariant. -/
theorem Valid.effect {s s' : Session Origin} {op : Operation Origin} (hs : s.Valid)
    (h : Effect s op s') : s'.Valid := by
  cases h with
  | kept registry units upload =>
    exact ⟨registry ▸ hs.registry, units ▸ hs.units, upload ▸ hs.upload⟩
  | failed hc => exact ⟨(compileScripts_error hc hs.registry).1, hs.units, hs.upload⟩
  | sent hc =>
    exact ⟨(compileScripts_ok hc).valid hs.registry, sorted_addUnits hs.units, hs.upload.send _⟩
  | cleared hop => exact ⟨Registry.valid_empty, SortedMap.sorted_empty, fun _ => rfl⟩
  | cancelled => exact ⟨hs.registry, hs.units, fun _ => rfl⟩
  | released hid => exact ⟨hs.registry.freeOrigin _, hs.units.erase _, hs.upload⟩
  | stepped => exact ⟨hs.registry, hs.units, hs.upload.chunkReady⟩
  | ended hline halive => exact ⟨hs.registry, hs.units.erase _, hs.upload⟩

theorem valid_after (board : Board) (settings : Settings) (ops : List (Operation Origin)) :
    ((new board settings).after ops).Valid :=
  after_induction (valid_new board settings) (fun s op hs => hs.effect (s.perform_effect op)) ops

/-! ## While ids have not wrapped -/

/-- A request that fails leaves the units, and the bindings of their scripts. -/
theorem Bound.failed {s : Session Origin} {n : Nat} (hs : s.Bound n)
    {scripts : List (Origin × Block)} {err : Origin × CompileError}
    (hc : (s.compiled scripts).result = .error err) (hn : n + scripts.length ≤ UInt32.size) :
    Bound { s with registry := (s.compiled scripts).registry } (n + scripts.length) := by
  obtain ⟨hvalid, hback, hids, -⟩ := compileScripts_error hc hs.registry
  have hkept : ∀ id o, s.registry.resolve id = some o →
      (s.compiled scripts).registry.resolve id = some o :=
    fun _ _ => resolve_of_compileScripts_error hc hs.registry hs.exact hs.below hn
  refine ⟨⟨hvalid, hs.units, hs.upload⟩, fun o id hid => ?_, fun id o hid => ?_, fun id u hu => ?_⟩
  · -- The table of scripts is as it was, and so are the bindings it leads to.
    refine hkept id o (hs.exact o id ?_)
    rwa [Registry.idOf, Session.compiled, hids] at hid
  · exact hs.below.mono (Nat.le_add_right _ _) id o (hback id o hid).1
  · obtain ⟨hself, hres⟩ := hs.bound id u hu
    exact ⟨hself, hkept id u.origin hres⟩

/-- A request that goes through adds units, each under the id of its script. -/
theorem Bound.sent {s : Session Origin} {n : Nat} (hs : s.Bound n)
    {scripts : List (Origin × Block)} {units : List (CompiledUnit Origin)}
    (hc : (s.compiled scripts).result = .ok units) (hn : n + scripts.length ≤ UInt32.size)
    (upload : Upload) (hup : upload.Settled) :
    Bound { s.loaded scripts units with upload } (n + scripts.length) := by
  have hassigns := compileScripts_ok hc
  have hlen : (scripts.map (·.1)).length = scripts.length := List.length_map _
  refine ⟨⟨hassigns.valid hs.registry, sorted_addUnits hs.units, hup⟩, ?_, ?_, fun id u hu => ?_⟩
  · have hnew := s.registry.newIds_le_length (scripts.map (·.1))
    exact hassigns.exact hs.registry hs.exact hs.below (by omega)
  · have hbelow := hassigns.below_length hs.registry hs.below (by omega)
    rw [hlen] at hbelow
    exact hbelow
  · -- A unit is one of the new ones, or was alive before and its binding stands.
    rcases get?_addUnits hs.units hu with hold | ⟨hmem, rfl⟩
    · obtain ⟨hself, hres⟩ := hs.bound id u hold
      exact ⟨hself, hassigns.resolve_of_some hs.registry hs.below (by omega) hres⟩
    · exact ⟨rfl, hassigns.resolve_unit hs.registry hs.exact hs.below (by omega) hmem⟩

/-- Removing a script takes away its id and the unit under it. -/
theorem Bound.released {s : Session Origin} {n : Nat} (hs : s.Bound n) {o : Origin} {id : UnitId}
    (hid : s.registry.idOf o = some id) :
    Bound { s with registry := (s.registry.freeOrigin o).2, units := s.units.erase id } n := by
  have hheld : s.registry.resolve id = some o := hs.exact o id hid
  refine ⟨⟨hs.registry.freeOrigin o, hs.units.erase id, hs.upload⟩,
    hs.registry.exact_freeOrigin hs.exact o, fun j o' hj => ?_, fun j u hu => ?_⟩
  · exact hs.below j o' (hs.registry.of_resolve_freeOrigin hj).1
  · obtain ⟨hj, hget⟩ := (SortedMap.get?_erase_eq_some_iff hs.units).mp hu
    obtain ⟨hself, hres⟩ := hs.bound j u hget
    refine ⟨hself, (hs.registry.resolve_freeOrigin hs.exact).mpr ⟨hres, ?_⟩⟩
    intro ho
    rw [ho] at hres
    exact hj (hs.registry.unique _ _ _ hres hheld)

/-- No effect breaks the second invariant, as long as there are ids. -/
theorem Bound.effect {s s' : Session Origin} {op : Operation Origin} {n : Nat} (hs : s.Bound n)
    (hn : n + op.chains ≤ UInt32.size) (h : Effect s op s') : s'.Bound (n + op.chains) := by
  have hvalid : s'.Valid := hs.toValid.effect h
  cases h with
  | kept registry units upload =>
    refine ⟨hvalid, registry ▸ hs.exact, ?_, fun id u hu => ?_⟩
    · rw [registry]
      exact hs.below.mono (Nat.le_add_right _ _)
    · rw [units] at hu
      rw [registry]
      exact hs.bound id u hu
  | failed hc => exact hs.failed hc hn
  | sent hc => exact hs.sent hc hn _ (hs.upload.send _)
  | cleared hop =>
    refine ⟨hvalid, Registry.exact_empty, fun id o hid => ?_, fun id u hu => ?_⟩
    · exact absurd hid (by simp [clear, Registry.resolve_empty])
    · exact absurd hu (by simp [clear, SortedMap.get?_empty])
  | cancelled => exact ⟨hvalid, hs.exact, hs.below, hs.bound⟩
  | released hid => exact hs.released hid
  | stepped => exact ⟨hvalid, hs.exact, hs.below, hs.bound⟩
  -- One unit less, and the registry as it was.
  | ended hline halive =>
    refine ⟨hvalid, hs.exact, hs.below, fun j u hu => ?_⟩
    exact hs.bound j u ((SortedMap.get?_erase_eq_some_iff hs.units).mp hu).2

/-- Up to the last id there is, the live units are those the registry knows. -/
theorem Bound.after {s : Session Origin} {n : Nat} (hs : s.Bound n) {ops : List (Operation Origin)}
    (hn : n + chainsRun ops ≤ UInt32.size) : (s.after ops).Bound (n + chainsRun ops) := by
  induction ops generalizing s n with
  | nil => exact hs
  | cons op ops ih =>
    rw [chainsRun, ← Nat.add_assoc] at hn ⊢
    exact ih (hs.effect (by omega) (s.perform_effect op)) hn

end Session

end BlockLink
