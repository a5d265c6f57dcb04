import BlockLink.Proofs.Session.Invariant

/-!
# `BlockLink/Proofs/Session/Identity.lean` — units, ids and programs stay in step

Three things speak of the same ids: the table of live units, the registry and the programs that are
sent. They are changed by different operations, and the main statement is that they never drift
apart while ids have not wrapped. What a live unit is comes straight from `Session.Bound`. What a
program declares is the table of live units, so its ids ascend because the table's keys do, and
every unit it starts was put into the table just before. That a script keeps its id is a property of
single operations (`Session.Bound.keeps`), and of runs by induction.
-/

set_option autoImplicit false

namespace BlockLink

variable {Origin : Type}

theorem SortedMap.Sorted.keys_pairwise {V : Type} {m : SortedMap UnitId V} (h : m.Sorted) :
    m.keys.Pairwise (· < ·) := by
  unfold SortedMap.keys
  rw [List.pairwise_map]
  exact h.imp fun hlt => Std.compare_eq_lt.mp hlt

variable [DecidableEq Origin]

namespace Session

/-! ## Live units -/

theorem Bound.map_id {s : Session Origin} {n : Nat} (hs : s.Bound n) :
    s.units.values.map (·.id) = s.units.keys := by
  unfold SortedMap.values SortedMap.keys
  rw [List.map_map]
  refine List.map_congr_left fun e he => ?_
  exact (hs.bound e.1 e.2 ((SortedMap.get?_eq_some_iff hs.units).mpr he)).1

theorem Bound.entry {s : Session Origin} {n : Nat} (hs : s.Bound n) {k : UnitId}
    {u : CompiledUnit Origin} (h : (k, u) ∈ s.units.entries) :
    u.id = k ∧ s.registry.resolve k = some u.origin :=
  hs.bound k u ((SortedMap.get?_eq_some_iff hs.units).mpr h)

/-- No two live units came from the same script. -/
theorem Bound.origin_injective {s : Session Origin} {n : Nat} (hs : s.Bound n)
    {e e' : UnitId × CompiledUnit Origin} (he : e ∈ s.units.entries) (he' : e' ∈ s.units.entries)
    (ho : e.2.origin = e'.2.origin) : e = e' := by
  obtain ⟨k, u⟩ := e
  obtain ⟨k', u'⟩ := e'
  have hres : s.registry.resolve k = some u'.origin := (hs.entry he).2.trans (congrArg some ho)
  obtain rfl : k = k' := hs.registry.unique _ _ _ hres (hs.entry he').2
  have hget := (SortedMap.get?_eq_some_iff hs.units).mpr he
  have hget' := (SortedMap.get?_eq_some_iff hs.units).mpr he'
  rw [Option.some.inj (hget.symm.trans hget')]

end Session

/-! ## Programs -/

namespace Registry.Assigns

variable {r r' : Registry Origin} {origins : List Origin} {units : List (CompiledUnit Origin)}

theorem map_origin (h : Assigns r origins units r') : units.map (·.origin) = origins := by
  induction h with
  | nil r => rfl
  | cons o source h ih => rw [List.map_cons, ih]

/-- The units stand under the ids of the scripts they came from, in the same order. -/
theorem map_resolve (h : Assigns r origins units r') (hr : r.Valid) (he : r.Exact) {n : Nat}
    (hb : r.Below n) (hn : n + origins.length ≤ UInt32.size) :
    (units.map (·.id)).map r'.resolve = origins.map some := by
  have hunit : ∀ u ∈ units, r'.resolve u.id = some u.origin :=
    fun u hu => h.resolve_unit hr he hb hn hu
  calc (units.map (·.id)).map r'.resolve
      = units.map fun u => r'.resolve u.id := List.map_map
    _ = units.map fun u => some u.origin := List.map_congr_left hunit
    _ = (units.map (·.origin)).map some := List.map_map.symm
    _ = origins.map some := by rw [h.map_origin]

end Registry.Assigns

namespace Session

/-- What a request to run scripts hands to the channel: the program of the live units, by ascending
ids, which starts the ids of the scripts and declares each of them. -/
structure Sends (s : Session Origin) (scripts : List (Origin × Block)) (ids : List UnitId) :
    Prop where
  upload : (s.run scripts).session.upload
    = (s.upload.send
        (Program.build (s.run scripts).session.units.values ids s.settings.mark)).2
  result : (s.run scripts).result
    = .ok (s.upload.send
        (Program.build (s.run scripts).session.units.values ids s.settings.mark)).1.frame?
  asked : ids.map (s.run scripts).session.registry.resolve = scripts.map fun script => some script.1
  ascending : ((s.run scripts).session.units.values.map (·.id)).Pairwise (· < ·)
  declared : ∀ id ∈ ids, id ∈ (s.run scripts).session.units.values.map (·.id)

/-- While there are ids, a request that goes through hands on such a program. -/
theorem Bound.sends {s : Session Origin} {n : Nat} (hs : s.Bound n)
    {scripts : List (Origin × Block)} (hn : n + scripts.length ≤ UInt32.size)
    (hok : (s.run scripts).result.isOk = true) : ∃ ids, s.Sends scripts ids := by
  obtain ⟨units, hc⟩ := exists_compiled hok
  have hassigns := compileScripts_ok hc
  have hlen : n + (scripts.map (·.1)).length ≤ UInt32.size := by rwa [List.length_map]
  have hafter := hs.sent hc hn _ (hs.upload.send (s.programOf scripts units))
  have hids := hafter.map_id
  have hsorted := hafter.units.keys_pairwise
  refine ⟨units.map (·.id), ?_, ?_, ?_, ?_, fun id hid => ?_⟩
  · rw [run_of_ok hc]
    rfl
  · rw [run_of_ok hc]
    rfl
  · rw [run_of_ok hc]
    exact (hassigns.map_resolve hs.registry hs.exact hs.below hlen).trans List.map_map
  · rw [run_of_ok hc, hids]
    exact hsorted
  · -- A unit that is started was put into the table just before.
    rw [run_of_ok hc, hids]
    have hcontains := (contains_addUnits hs.units).mpr (Or.inr hid)
    obtain ⟨u, hu⟩ := Option.isSome_iff_exists.mp hcontains
    exact List.mem_map_of_mem ((SortedMap.get?_eq_some_iff hafter.units).mp hu)

/-! ## Keeping an id -/

/-- The operation takes the id of a script away. -/
def Releases (o : Origin) (op : Operation Origin) : Prop :=
  op = .removeChain o ∨ op.Clears

/-- No other operation takes it away. -/
theorem Bound.keeps {s s' : Session Origin} {op : Operation Origin} {n : Nat} (hs : s.Bound n)
    (hn : n + op.chains ≤ UInt32.size) (h : Effect s op s') {id : UnitId} {o : Origin}
    (hid : s.registry.resolve id = some o) (hop : ¬ Releases o op) :
    s'.registry.resolve id = some o := by
  cases h with
  | kept registry units upload =>
    rw [registry]
    exact hid
  | failed hc => exact resolve_of_compileScripts_error hc hs.registry hs.exact hs.below hn hid
  | sent hc =>
    exact (compileScripts_ok hc).resolve_of_some hs.registry hs.below
      (by rw [List.length_map]; exact hn) hid
  | cleared hclears => exact absurd (Or.inr hclears) hop
  | cancelled => exact hid
  | @released o' freed hfreed =>
    refine (hs.registry.resolve_freeOrigin hs.exact).mpr ⟨hid, ?_⟩
    rintro rfl
    exact hop (Or.inl rfl)
  | stepped => exact hid
  | ended hline halive => exact hid

theorem Bound.keeps_after {s : Session Origin} {n : Nat} (hs : s.Bound n)
    {ops : List (Operation Origin)} (hn : n + chainsRun ops ≤ UInt32.size) {id : UnitId}
    {o : Origin} (hid : s.registry.resolve id = some o) (hops : ∀ op ∈ ops, ¬ Releases o op) :
    (s.after ops).registry.resolve id = some o := by
  induction ops generalizing s n with
  | nil => exact hid
  | cons op ops ih =>
    rw [chainsRun] at hn
    have heff := s.perform_effect op
    have hop : n + op.chains ≤ UInt32.size := by omega
    refine ih (hs.effect hop heff) (by omega) ?_ fun op' hmem =>
      hops op' (List.mem_cons_of_mem _ hmem)
    exact hs.keeps hop heff hid (hops op List.mem_cons_self)

/-- A script that was run holds an id. -/
theorem Sends.held {s : Session Origin} {scripts : List (Origin × Block)} {ids : List UnitId}
    (h : s.Sends scripts ids) {o : Origin} (ho : o ∈ scripts.map (·.1)) :
    ∃ id, (s.run scripts).session.registry.resolve id = some o := by
  obtain ⟨script, hscript, rfl⟩ := List.mem_map.mp ho
  have hmem : some script.1 ∈ ids.map (s.run scripts).session.registry.resolve := by
    rw [h.asked]
    exact List.mem_map_of_mem hscript
  obtain ⟨id, -, hid⟩ := List.mem_map.mp hmem
  exact ⟨id, hid⟩

end Session

/-- In every session in which fewer scripts were run than there are ids, every live unit stands
under its own id, which the registry gives to its script, so that no two come from one script; every
request that went through handed a program to the channel that declares units by ascending ids and
starts only such as it declares; and from then on each of its scripts kept its id until it was
removed or all were. -/
theorem session_in_step (board : Board) (settings : Settings) (ops : List (Operation Origin))
    (hn : chainsRun ops < UInt32.size) :
    let start : Session Origin := Session.new board settings
    let s := start.after ops
    (∀ k u, (k, u) ∈ s.units.entries → u.id = k ∧ s.registry.resolve k = some u.origin) ∧
      (∀ e ∈ s.units.entries, ∀ e' ∈ s.units.entries, e.2.origin = e'.2.origin → e = e') ∧
      ∀ before scripts later, ops = before ++ .run scripts :: later →
        ((start.after before).run scripts).result.isOk = true →
        (∃ ids, (start.after before).Sends scripts ids) ∧
          ∀ o ∈ scripts.map (·.1), (∀ op ∈ later, ¬ Session.Releases o op) →
            ∃ id, ((start.after before).run scripts).session.registry.idOf o = some id ∧
              s.registry.idOf o = some id := by
  intro start s
  have hall : s.Bound (0 + chainsRun ops) := (Session.bound_new board settings).after (by omega)
  refine ⟨fun k u h => hall.entry h, fun e he e' he' ho => hall.origin_injective he he' ho, ?_⟩
  intro before scripts later hops hok
  -- The run in three parts: before the request, the request, and behind it.
  have hcount : chainsRun ops
      = chainsRun before + ((Operation.run scripts).chains + chainsRun later) := by
    rw [hops, chainsRun_append]
    rfl
  have hbefore : (start.after before).Bound (0 + chainsRun before) :=
    (Session.bound_new board settings).after (by omega)
  have hroom : 0 + chainsRun before + (Operation.run scripts).chains ≤ UInt32.size := by omega
  obtain ⟨ids, hsends⟩ := hbefore.sends hroom hok
  refine ⟨⟨ids, hsends⟩, fun o ho hlater => ?_⟩
  have hrun : ((start.after before).run scripts).session.Bound
      (0 + chainsRun before + (Operation.run scripts).chains) :=
    hbefore.effect hroom ((start.after before).perform_effect (.run scripts))
  obtain ⟨id, hid⟩ := hsends.held ho
  have hlast : s.registry.resolve id = some o := by
    have hs : s = ((start.after before).run scripts).session.after later := by
      simp only [s, hops, Session.after_append]
      rfl
    rw [hs]
    exact hrun.keeps_after (by omega) hid hlater
  exact ⟨id, hrun.registry.held id o hid, hall.registry.held id o hlast⟩

/-- The first of two units ends, a request fails, and a third script is run: the second script has
its id still, and the live units stand under the ids of their scripts. -/
theorem session_in_step_after_failure :
    let stop : Block := .mk "doStopThis" .command [] none
    let before : List (Operation Nat) := [.wakeUp]
    let scripts := [(7, stop), (9, stop)]
    let later : List (Operation Nat) :=
      [.line "dc:0:", .run [(8, stop), (5, .mk "doFly" .command [] none)], .run [(5, stop)]]
    let ops := before ++ .run scripts :: later
    chainsRun ops < UInt32.size ∧
      (∀ k u, (k, u) ∈ ((Session.new .blank {}).after ops).units.entries →
        u.id = k ∧ ((Session.new .blank {}).after ops).registry.resolve k = some u.origin) ∧
      ∃ id, (((Session.new .blank {}).after before).run scripts).session.registry.idOf 9 = some id ∧
        ((Session.new .blank {}).after ops).registry.idOf 9 = some id := by
  intro stop before scripts later ops
  have hn : chainsRun ops < UInt32.size := by decide
  have hok : (((Session.new .blank {}).after before).run scripts).result.isOk = true := by
    decide +kernel
  have hlater : ∀ op ∈ later, ¬ Session.Releases 9 op := by
    simp [later, Session.Releases, Operation.Clears]
  obtain ⟨hunits, -, hruns⟩ := session_in_step .blank {} ops hn
  exact ⟨hn, hunits, (hruns before scripts later rfl hok).2 9 (by simp [scripts]) hlater⟩

end BlockLink
