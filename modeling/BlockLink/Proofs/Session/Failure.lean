import BlockLink.Proofs.Session.Invariant

/-!
# `BlockLink/Proofs/Session/Failure.lean` — a request that fails changes nothing

Ids are handed out while scripts are compiled, so a script that does not compile leaves ids behind
that were given to the ones in front of it. Exactly those are taken back. Nothing else is touched
before all scripts have compiled, and so the session after a failed request is the session before
it.

The registry needs an argument, one for each of its tables. Under the ids stand the same scripts by
`compileScripts_error`, and a sorted table is its look-up. The table of scripts is not sorted, but
what was written to it goes again and the rest keeps its place. The first of these needs that the id
of a script is its own, which is so as long as no request ever ran out of ids (`exact_after`).
-/

set_option autoImplicit false

namespace BlockLink

variable {Origin : Type} [DecidableEq Origin]

/-- Registries with the same bindings in both directions are the same. -/
theorem Registry.Valid.ext {r r' : Registry Origin} (h : r.Valid) (h' : r'.Valid)
    (hres : ∀ id o, r.resolve id = some o ↔ r'.resolve id = some o) (hids : r.ids = r'.ids) :
    r = r' := by
  have hmap : r.bindings = r'.bindings :=
    SortedMap.ext_get? h.sorted h'.sorted fun id => Option.ext fun o => hres id o
  cases r
  cases r'
  exact congr (congrArg Registry.mk hmap) hids

/-- Assigning ids and taking the new ones back is doing nothing. -/
theorem registry_of_compileScripts_error {board : Board} {yields : Bool}
    {scripts : List (Origin × Block)} {r : Registry Origin} {state : CompileState}
    {err : Origin × CompileError}
    (h : (compileScripts board yields scripts [] r state).result = .error err) (hr : r.Valid)
    (he : r.Exact) {n : Nat} (hb : r.Below n)
    (hn : n + r.newIds (scripts.map (·.1)) ≤ UInt32.size) :
    (compileScripts board yields scripts [] r state).registry = r := by
  obtain ⟨hvalid, hback, hids, hkept⟩ := compileScripts_error h hr
  refine hvalid.ext hr (fun id o => ⟨fun hid => (hback id o hid).1, fun hid => ?_⟩) hids
  exact hkept n he hb hn id o hid List.not_mem_nil

/-! ## Requests for which there are ids -/

namespace Session

/-- There is an id for every script of a request that needs a new one. -/
def HasIds (s : Session Origin) : Operation Origin → Prop
  | .run scripts =>
    ∃ n, s.registry.Below n ∧ n + s.registry.newIds (scripts.map (·.1)) ≤ UInt32.size
  | _ => True

/-- An operation for which there are ids keeps the tables inverse. -/
theorem exact_effect {s s' : Session Origin} {op : Operation Origin} (hs : s.Valid)
    (he : s.registry.Exact) (hids : s.HasIds op) (h : Effect s op s') : s'.registry.Exact := by
  cases h with
  | kept registry units upload => exact registry ▸ he
  | failed hc =>
    obtain ⟨n, hb, hn⟩ := hids
    have hsame := registry_of_compileScripts_error hc hs.registry he hb hn
    exact hsame.symm ▸ he
  | sent hc =>
    obtain ⟨n, hb, hn⟩ := hids
    exact (compileScripts_ok hc).exact hs.registry he hb hn
  | cleared hop => exact Registry.exact_empty
  | released hid => exact hs.registry.exact_freeOrigin he _
  | cancelled | stepped | ended hline halive => exact he

/-- If there were ids whenever scripts were run, the registry's tables are inverse. -/
theorem exact_after {s : Session Origin} (hs : s.Valid) (he : s.registry.Exact)
    {ops : List (Operation Origin)}
    (hids : ∀ before op later, ops = before ++ op :: later → (s.after before).HasIds op) :
    (s.after ops).registry.Exact := by
  induction ops generalizing s with
  | nil => exact he
  | cons op ops ih =>
    have heffect := s.perform_effect op
    refine ih (hs.effect heffect) (exact_effect hs he (hids [] op ops rfl) heffect) ?_
    intro before op' later hsplit
    exact hids (op :: before) op' later (congrArg (op :: ·) hsplit)

end Session

/-! ## The error of a request -/

/-- A request fails only by a script that does not compile. -/
theorem Session.run_error_cases {s : Session Origin} {scripts : List (Origin × Block)}
    {e : CompileError} (h : (s.run scripts).result = .error e) :
    ∃ o, (s.compiled scripts).result = .error (o, e) := by
  cases hc : (s.compiled scripts).result with
  | error err =>
    obtain ⟨o, e'⟩ := err
    rw [Session.run_of_error hc] at h
    obtain rfl : e' = e := Except.error.inj h
    exact ⟨o, rfl⟩
  | ok units =>
    rw [Session.run_of_ok hc] at h
    exact absurd h (by simp)

/-- Whatever was done in a session, a request to run scripts that fails leaves all of it as it was,
the bindings of the registry in both directions included, provided that there were ids for the
scripts of this request and of every one before it; and so does a reporter that fails. The user is
told once, with the text of the error. -/
theorem failed_request_changes_nothing (board : Board) (settings : Settings)
    (ops : List (Operation Origin)) :
    let s : Session Origin := (Session.new board settings).after ops
    ((∀ before op later, ops = before ++ op :: later →
        ((Session.new board settings : Session Origin).after before).HasIds op) →
      ∀ scripts e, s.HasIds (.run scripts) → (s.run scripts).result = .error e →
        (s.run scripts).session = s ∧
          (s.run scripts).shown = [.status (.compileFailed e.message)]) ∧
    ∀ origin block e, (s.evaluate origin block).result = .error e →
      (s.evaluate origin block).session = s ∧
        (s.evaluate origin block).shown = [.status (.compileFailed e.message)] := by
  intro s
  have hs : s.Valid := Session.valid_after board settings ops
  constructor
  · intro hids scripts e hnow herr
    -- The tables are inverse, so what is taken back is what was given.
    have he : s.registry.Exact :=
      Session.exact_after (Session.valid_new board settings) Registry.exact_empty hids
    obtain ⟨n, hb, hn⟩ := hnow
    obtain ⟨o, hc⟩ := Session.run_error_cases herr
    have hsame : (s.compiled scripts).registry = s.registry :=
      registry_of_compileScripts_error hc hs.registry he hb hn
    rw [Session.run_of_error hc, hsame]
    exact ⟨rfl, rfl⟩
  · intro origin block e herr
    rcases s.evaluate_cases origin block with ⟨e', he⟩ | ⟨line, ds, he⟩
    · rw [he] at herr ⊢
      obtain rfl : e' = e := Except.error.inj herr
      exact ⟨rfl, rfl⟩
    · rw [he] at herr
      exact absurd herr (by simp)

/-- One script is alive; a request names a new one twice, that one and a script that does not
compile. -/
theorem failed_request_changes_nothing_repeated :
    let stop : Block := .mk "doStopThis" .command [] none
    let s : Session Nat := (Session.new .blank {}).after [.run [(7, stop)]]
    let scripts : List (Nat × Block) :=
      [(9, stop), (9, stop), (7, stop), (8, .mk "doFly" .command [] none)]
    s.HasIds (.run scripts) ∧ (s.run scripts).result = .error (.unknownSelector "doFly") ∧
      (s.run scripts).session = s ∧ s.registry.idOf 7 = some 0 ∧ s.registry.resolve 0 = some 7 ∧
      (s.run scripts).shown = [.status (.compileFailed "unknown block: doFly")] := by
  intro stop s scripts
  have hfirst : ((Session.new .blank {} : Session Nat)).HasIds (.run [(7, stop)]) :=
    ⟨0, Registry.below_empty, by decide +kernel⟩
  have hb : s.registry.Below 1 :=
    ((Session.bound_new .blank {}).after (by decide : 0 + chainsRun [.run [(7, stop)]] ≤ _)).below
  have hnow : s.HasIds (.run scripts) := ⟨1, hb, by decide +kernel⟩
  have herr : (s.run scripts).result = .error (.unknownSelector "doFly") := by decide +kernel
  have hids : ∀ before op later, [Operation.run [(7, stop)]] = before ++ op :: later →
      ((Session.new .blank {} : Session Nat).after before).HasIds op := by
    intro before op later hsplit
    cases before with
    | nil =>
      cases hsplit
      exact hfirst
    | cons first before => simp at hsplit
  obtain ⟨hsession, hshown⟩ := (failed_request_changes_nothing .blank {} [.run [(7, stop)]]).1
    hids scripts (.unknownSelector "doFly") hnow herr
  exact ⟨hnow, herr, hsession, by decide +kernel, by decide +kernel, hshown⟩

end BlockLink
