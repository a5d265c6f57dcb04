import BlockLink.Proofs.Registry

/-!
# `BlockLink/Proofs/Session/Compile.lean` — what compiling does to the registry

Compiling hands out ids as it goes and takes the new ones back if a script fails. Of the code that
comes out nothing matters here: `Assigns` is what is left of a request that went through, one unit
per script under the id its script was assigned, and `compileScripts_error` says how a request that
failed ends. What holds even when ids wrap comes first; under a count of ids every binding survives.
-/

set_option autoImplicit false

namespace BlockLink

variable {Origin : Type} [DecidableEq Origin]

namespace Registry

/-- Scripts were assigned their ids in order, and the units carry them. -/
inductive Assigns : Registry Origin → List Origin → List (CompiledUnit Origin) → Registry Origin →
    Prop where
  | nil (r : Registry Origin) : Assigns r [] [] r
  | cons {r r' : Registry Origin} (o : Origin) (source : String) {origins : List Origin}
      {units : List (CompiledUnit Origin)} (h : Assigns (r.assign o).2 origins units r') :
      Assigns r (o :: origins) (⟨(r.assign o).1, source, o⟩ :: units) r'

namespace Assigns

variable {r r' : Registry Origin} {origins : List Origin} {units : List (CompiledUnit Origin)}

theorem valid (h : Assigns r origins units r') (hr : r.Valid) : r'.Valid := by
  induction h with
  | nil r => exact hr
  | cons o source h ih => exact ih (hr.assign o)

/-- A binding that is there afterwards was there before, or a unit has its id. -/
theorem resolve_cases (h : Assigns r origins units r') (hr : r.Valid) {id : UnitId} {o : Origin}
    (hid : r'.resolve id = some o) : r.resolve id = some o ∨ id ∈ units.map (·.id) := by
  induction h with
  | nil r => exact Or.inl hid
  | cons o' source h ih =>
    rw [List.map_cons, List.mem_cons]
    rcases ih (hr.assign o') hid with hmid | hmem
    · rcases hr.resolve_assign_cases hmid with hold | ⟨-, hnew, -⟩
      · exact Or.inl hold
      · exact Or.inr (Or.inl hnew)
    · exact Or.inr (Or.inr hmem)

/-- A script that held an id gets a unit with that id, or has lost it to a unit with that id. -/
theorem mem_ids (h : Assigns r origins units r') (hr : r.Valid) {id : UnitId} {o : Origin}
    (hid : r.resolve id = some o) (ho : o ∈ origins) : id ∈ units.map (·.id) := by
  induction h with
  | nil r => exact absurd ho List.not_mem_nil
  | @cons r r' o' source origins units h ih =>
    rw [List.map_cons, List.mem_cons]
    by_cases hfirst : id = (r.assign o').1
    · exact Or.inl hfirst
    · -- The id is not the one just assigned, so its binding stands and its script comes later.
      have hne : o ≠ o' := by
        rintro rfl
        rw [assign_of_some (hr.held id o hid)] at hfirst
        exact hfirst rfl
      have hmid : (r.assign o').2.resolve id = some o := by
        cases ho' : r.idOf o' with
        | some id' =>
          rw [assign_of_some ho']
          exact hid
        | none =>
          rw [assign_of_none ho'] at hfirst
          rw [hr.resolve_assign_of_none ho', if_neg hfirst]
          exact hid
      exact Or.inr (ih (hr.assign o') hmid ((List.mem_cons.mp ho).resolve_left hne))

/-! Under a count of ids. -/

theorem below_length (h : Assigns r origins units r') (hr : r.Valid) {n : Nat} (hb : r.Below n)
    (hn : n + origins.length ≤ UInt32.size) : r'.Below (n + origins.length) := by
  induction h generalizing n with
  | nil r => exact hb
  | @cons r r' o source origins units h ih =>
    rw [List.length_cons] at hn ⊢
    have hlater := ih (hr.assign o) (hr.below_assign hb (by omega) o) (by omega)
    exact hlater.mono (by omega)

theorem resolve_of_some (h : Assigns r origins units r') (hr : r.Valid) {n : Nat} (hb : r.Below n)
    (hn : n + origins.length ≤ UInt32.size) {id : UnitId} {o : Origin}
    (hid : r.resolve id = some o) :
    r'.resolve id = some o := by
  induction h generalizing n with
  | nil r => exact hid
  | @cons r r' o' source origins units h ih =>
    rw [List.length_cons] at hn
    exact ih (hr.assign o') (hr.below_assign hb (by omega) o') (by omega)
      (hr.resolve_assign_of_some hb (by omega) o' hid)

/-- The id of a unit is held by its script. -/
theorem resolve_unit (h : Assigns r origins units r') (hr : r.Valid) (he : r.Exact) {n : Nat}
    (hb : r.Below n) (hn : n + origins.length ≤ UInt32.size) {u : CompiledUnit Origin}
    (hu : u ∈ units) : r'.resolve u.id = some u.origin := by
  induction h generalizing n with
  | nil r => exact absurd hu List.not_mem_nil
  | @cons r r' o source origins units h ih =>
    rw [List.length_cons] at hn
    have hlt : n < UInt32.size := by omega
    have hb' := hr.below_assign hb hlt o
    rcases List.mem_cons.mp hu with rfl | hu
    · exact h.resolve_of_some (hr.assign o) hb' (by omega) (hr.resolve_assign_self he o)
    · exact ih (hr.assign o) (hr.exact_assign he hb hlt o) hb' (by omega) hu

/-- No script loses its id to the scripts that come after it. -/
theorem idOf_of_some (h : Assigns r origins units r') {o : Origin} {id : UnitId}
    (ho : r.idOf o = some id) : r'.idOf o = some id := by
  induction h with
  | nil r => exact ho
  | @cons r r' first source origins units h ih => exact ih (idOf_assign_of_some first ho)

end Assigns

end Registry

/-! ## Requests -/

/-- The scripts among those of a request whose id is new, after one more. -/
def freshAfter (r : Registry Origin) (fresh : List Origin) (o : Origin) : List Origin :=
  if (r.idOf o).isNone then fresh ++ [o] else fresh

theorem mem_freshAfter {r : Registry Origin} {fresh : List Origin} {o o' : Origin} :
    o' ∈ freshAfter r fresh o ↔ o' ∈ fresh ∨ (r.idOf o = none ∧ o' = o) := by
  unfold freshAfter
  cases r.idOf o <;> simp

/-- How many new ids assigning scripts in order takes. -/
def Registry.newIds (r : Registry Origin) : List Origin → Nat
  | [] => 0
  | o :: origins => (if (r.idOf o).isNone then 1 else 0) + (r.assign o).2.newIds origins

theorem Registry.newIds_le_length (r : Registry Origin) (origins : List Origin) :
    r.newIds origins ≤ origins.length := by
  induction origins generalizing r with
  | nil => exact Nat.le_refl 0
  | cons o origins ih =>
    have hrest := ih (r.assign o).2
    rw [newIds, List.length_cons]
    split <;> omega

/-- As long as the new ids are there to be given, assigning one of them keeps every binding and the
tables inverse, and leaves enough for the rest. -/
theorem Registry.Valid.assign_keeps {r : Registry Origin} (h : r.Valid) (he : r.Exact) {n : Nat}
    (hb : r.Below n) {o : Origin} {origins : List Origin}
    (hn : n + r.newIds (o :: origins) ≤ UInt32.size) :
    (∀ id o', r.resolve id = some o' → (r.assign o).2.resolve id = some o') ∧
      (r.assign o).2.Exact ∧
      ∃ m, (r.assign o).2.Below m ∧ m + (r.assign o).2.newIds origins ≤ UInt32.size := by
  rw [newIds] at hn
  cases ho : r.idOf o with
  | some id =>
    have hsame : (r.assign o).2 = r := by rw [assign_of_some ho]
    rw [ho, hsame] at hn
    rw [hsame]
    exact ⟨fun _ _ hid => hid, he, n, hb, by simpa using hn⟩
  | none =>
    have hone : n + (1 + (r.assign o).2.newIds origins) ≤ UInt32.size := by simpa [ho] using hn
    have hlt : n < UInt32.size := by omega
    exact ⟨fun _ _ hid => h.resolve_assign_of_some hb hlt o hid, h.exact_assign he hb hlt o, n + 1,
      h.below_assign hb hlt o, by omega⟩

/-- The tables of the registry stay inverse through a request for which there are ids. -/
theorem Registry.Assigns.exact {r r' : Registry Origin} {origins : List Origin}
    {units : List (CompiledUnit Origin)} (h : r.Assigns origins units r') (hr : r.Valid)
    (he : r.Exact) {n : Nat} (hb : r.Below n) (hn : n + r.newIds origins ≤ UInt32.size) :
    r'.Exact := by
  induction h generalizing n with
  | nil r => exact he
  | cons o source h ih =>
    obtain ⟨-, he', m, hb', hm⟩ := hr.assign_keeps he hb hn
    exact ih (hr.assign o) he' hb' hm

/-- In the table of scripts, what an assignment adds is new, and so goes with what is released. -/
theorem foldl_erase_freshAfter (r : Registry Origin) (fresh : List Origin) (o : Origin) :
    (freshAfter r fresh o).foldl Table.erase (r.assign o).2.ids
      = fresh.foldl Table.erase r.ids := by
  cases ho : r.idOf o with
  | some id => simp [freshAfter, ho, Registry.assign_of_some ho]
  | none =>
    have hback : (r.ids.insert o r.freshId).erase o = r.ids := Table.erase_insert ho r.freshId
    simp [freshAfter, ho, Registry.assign_of_none ho, List.foldl_append, Table.erase_foldl, hback]

/-- The first script does not compile, and all new ids are taken back, or the others follow it. -/
theorem compileScripts_cons (board : Board) (yields : Bool) (o : Origin) (block : Block)
    (rest : List (Origin × Block)) (fresh : List Origin) (r : Registry Origin)
    (state : CompileState) :
    (∃ e state', compileScripts board yields ((o, block) :: rest) fresh r state
      = ⟨.error (o, e), (r.assign o).2.freeOrigins (freshAfter r fresh o), state'⟩) ∨
    ∃ source state', compileScripts board yields ((o, block) :: rest) fresh r state
      = let later := compileScripts board yields rest (freshAfter r fresh o) (r.assign o).2 state'
        { later with result := later.result.map (⟨(r.assign o).1, source, o⟩ :: ·) } := by
  cases hc : block.compileFrom board ⟨.id (r.assign o).1, yields⟩ state.forgetPins with
  | mk result state' =>
    cases result with
    | error e => exact Or.inl ⟨e, state', by simp only [compileScripts, hc, freshAfter]⟩
    | ok source => exact Or.inr ⟨source, state', by simp only [compileScripts, hc, freshAfter]⟩

section

variable {board : Board} {yields : Bool} {scripts : List (Origin × Block)} {fresh : List Origin}
  {r : Registry Origin} {state : CompileState}

/-- A request that went through is a run of assignments. -/
theorem compileScripts_ok {units : List (CompiledUnit Origin)}
    (h : (compileScripts board yields scripts fresh r state).result = .ok units) :
    r.Assigns (scripts.map (·.1)) units
      (compileScripts board yields scripts fresh r state).registry := by
  induction scripts generalizing fresh r state units with
  | nil =>
    obtain rfl : [] = units := Except.ok.inj h
    exact .nil r
  | cons script rest ih =>
    obtain ⟨o, block⟩ := script
    rcases compileScripts_cons board yields o block rest fresh r state with
      ⟨e, state', he⟩ | ⟨source, state', he⟩
    · rw [he] at h
      exact absurd h (by simp)
    · rw [he] at h ⊢
      dsimp only at h ⊢
      cases hlater : (compileScripts board yields rest (freshAfter r fresh o) (r.assign o).2
          state').result with
      | error err =>
        rw [hlater] at h
        exact absurd h (by simp [Except.map])
      | ok units' =>
        rw [hlater] at h
        obtain rfl : ⟨(r.assign o).1, source, o⟩ :: units' = units := Except.ok.inj h
        exact .cons o source (ih hlater)

/-- What a failed request leaves: the ids assigned on the way, without those that were new. In the
table of scripts that is so in any case, in the table of ids as long as ids do not wrap. -/
theorem compileScripts_error {err : Origin × CompileError}
    (h : (compileScripts board yields scripts fresh r state).result = .error err) (hr : r.Valid) :
    (compileScripts board yields scripts fresh r state).registry.Valid ∧
      (∀ id o, (compileScripts board yields scripts fresh r state).registry.resolve id = some o →
        r.resolve id = some o ∧ o ∉ fresh) ∧
      (compileScripts board yields scripts fresh r state).registry.ids =
        fresh.foldl Table.erase r.ids ∧
      ∀ n, r.Exact → r.Below n → n + r.newIds (scripts.map (·.1)) ≤ UInt32.size →
        ∀ id o, r.resolve id = some o → o ∉ fresh →
          (compileScripts board yields scripts fresh r state).registry.resolve id = some o := by
  induction scripts generalizing fresh r state err with
  | nil => exact absurd h (by simp [compileScripts])
  | cons script rest ih =>
    obtain ⟨o, block⟩ := script
    -- What an assignment adds is new, and so is among what is released.
    have hback : ∀ {id o'}, (r.assign o).2.resolve id = some o' → o' ∉ freshAfter r fresh o →
        r.resolve id = some o' ∧ o' ∉ fresh := by
      intro id o' hid hnew
      rw [mem_freshAfter, not_or] at hnew
      rcases hr.resolve_assign_cases hid with hold | ⟨hnone, -, rfl⟩
      · exact ⟨hold, hnew.1⟩
      · exact absurd ⟨hnone, rfl⟩ hnew.2
    have hheld : ∀ {id o'}, r.resolve id = some o' → o' ∉ fresh → o' ∉ freshAfter r fresh o := by
      intro id o' hid hnew
      rw [mem_freshAfter, not_or]
      refine ⟨hnew, ?_⟩
      rintro ⟨hnone, rfl⟩
      exact hr.resolve_ne_of_idOf hnone id hid
    rcases compileScripts_cons board yields o block rest fresh r state with
      ⟨e, state', he⟩ | ⟨source, state', he⟩
    · rw [he]
      refine ⟨(hr.assign o).freeOrigins _, fun id o' hid => ?_, ?_,
        fun n hexact hb hn id o' hid hnew => ?_⟩
      · obtain ⟨hmid, hnew⟩ := (hr.assign o).of_resolve_freeOrigins hid
        exact hback hmid hnew
      · exact (Registry.ids_freeOrigins _ _).trans (foldl_erase_freshAfter r fresh o)
      · obtain ⟨hkeeps, hexact', -⟩ := hr.assign_keeps hexact hb hn
        exact ((hr.assign o).resolve_freeOrigins hexact').mpr ⟨hkeeps id o' hid, hheld hid hnew⟩
    · rw [he] at h ⊢
      dsimp only at h ⊢
      cases hlater : (compileScripts board yields rest (freshAfter r fresh o) (r.assign o).2
          state').result with
      | ok units =>
        rw [hlater] at h
        exact absurd h (by simp [Except.map])
      | error err' =>
        obtain ⟨hvalid, hres, hids, hkeep⟩ := ih hlater (hr.assign o)
        refine ⟨hvalid, fun id o' hid => ?_, hids.trans (foldl_erase_freshAfter r fresh o),
          fun n hexact hb hn id o' hid hnew => ?_⟩
        · obtain ⟨hmid, hnew⟩ := hres id o' hid
          exact hback hmid hnew
        · obtain ⟨hkeeps, hexact', m, hbelow, hm⟩ := hr.assign_keeps hexact hb hn
          exact hkeep m hexact' hbelow hm id o' (hkeeps id o' hid) (hheld hid hnew)

/-- Where there is an id for every script, a failed request keeps every binding. -/
theorem resolve_of_compileScripts_error {err : Origin × CompileError}
    (h : (compileScripts board yields scripts [] r state).result = .error err) (hr : r.Valid)
    (he : r.Exact) {n : Nat} (hb : r.Below n) (hn : n + scripts.length ≤ UInt32.size) {id : UnitId}
    {o : Origin} (hid : r.resolve id = some o) :
    (compileScripts board yields scripts [] r state).registry.resolve id = some o := by
  have hnew := r.newIds_le_length (scripts.map (·.1))
  rw [List.length_map] at hnew
  exact (compileScripts_error h hr).2.2.2 n he hb (by omega) id o hid List.not_mem_nil

end

end BlockLink
