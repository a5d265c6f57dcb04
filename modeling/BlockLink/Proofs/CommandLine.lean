import BlockLink.CommandLine
import BlockLink.Proofs.Session.FirstRun
import BlockLink.Proofs.Upload.InStep

/-!
# `BlockLink/Proofs/CommandLine.lean` — compiling a file and running it give one program

The command `compile` and a session that runs the same scripts go their own ways. One keeps its
units in a list, has an upload nowhere and stops dead at an error; the other keeps them in a map by
id, releases ids when a script fails, and hands its program to the upload channel. The main
statement is that on a new session they agree: on the bytes of the program, on the warnings and
their order, and on the error.
-/

set_option autoImplicit false

namespace BlockLink

/-- The diagnostic that is shown, if the feedback is one. -/
def Feedback.inert? {Origin : Type} : Feedback Origin → Option Diagnostic
  | .status (.inert d) => some d
  | _ => none

theorem filterMap_inert? {Origin : Type} (ds : List Diagnostic) :
    (ds.map fun d => (.status (.inert d) : Feedback Origin)).filterMap Feedback.inert? = ds := by
  rw [List.filterMap_map]
  exact List.filterMap_some

namespace CommandLine

/-! ## The two ways of compiling

The command compiles scripts one after another and drops what it has at the first error. A session
does the same and also keeps the ids that are new, so that it can release them. `compileScripts` is
the session's loop; what it results in decides what the command's loop results in. -/

section

variable {board : Board} {yields : Bool} {scripts : List (Nat × Block)} {fresh : List Nat}
  {r : Registry Nat} {state : CompileState}

/-- If every script compiles in a session, the command gets the same units and the same
diagnostics. -/
theorem compileUnits_of_ok {units : List (CompiledUnit Nat)}
    (h : (compileScripts board yields scripts fresh r state).result = .ok units) :
    compileUnits board yields scripts r state
      = .ok (units, (compileScripts board yields scripts fresh r state).state.diagnostics) := by
  induction scripts generalizing fresh r state units with
  | nil =>
    obtain rfl : [] = units := Except.ok.inj h
    rfl
  | cons script scripts ih =>
    obtain ⟨source, state', later, hfirst, hlater, rfl, -, hstate⟩ := compileScripts_cons_ok h
    rw [hstate, compileUnits]
    simp only [hfirst, ih hlater]
    rfl

/-- If a script fails in a session, the command fails at the same script with the same error. -/
theorem compileUnits_of_error {script : Nat} {e : CompileError}
    (h : (compileScripts board yields scripts fresh r state).result = .error (script, e)) :
    compileUnits board yields scripts r state = .error (.compileFailed script e) := by
  induction scripts generalizing fresh r state with
  | nil => cases h
  | cons first scripts ih =>
    obtain ⟨o, block⟩ := first
    cases hc : block.compileFrom board ⟨.id (r.assign o).1, yields⟩ state.forgetPins with
    | mk result state' =>
      cases result with
      | error e' =>
        simp only [compileScripts, hc, Except.error.injEq, Prod.mk.injEq] at h
        obtain ⟨rfl, rfl⟩ := h
        simp only [compileUnits, hc]
        rfl
      | ok source =>
        -- The first script compiled, so the error is a later one's.
        rw [compileScripts_of_compiled hc] at h
        dsimp only at h
        cases hlater : (compileScripts board yields scripts (freshAfter r fresh o) (r.assign o).2
            state').result with
        | ok later => simp [hlater, Except.map] at h
        | error err =>
          rw [hlater] at h
          obtain rfl : err = (script, e) := Except.error.inj h
          simp only [compileUnits, hc, ih hlater]
          rfl

end

theorem map_scripts (p : Project) : (scripts p).map (·.1) = List.range p.scripts.length := by
  unfold scripts
  rw [List.map_map, List.range_eq_range', ← List.zipIdx_map_snd]
  rfl

theorem length_scripts (p : Project) : (scripts p).length = p.scripts.length := by
  simp [scripts]

/-! ## Agreement

A new session has no units and an empty registry, so what it uploads is made of the scripts of the
request alone. -/

section

variable {p : Project} {board : Board} {settings : Settings}

theorem compile_of_error {script : Nat} {e : CompileError}
    (h : ((Session.new board settings).compiled (scripts p)).result = .error (script, e)) :
    compile p board settings = .error (.compileFailed script e) := by
  have hunits : compileUnits board settings.shouldYield (scripts p) .empty .initial = _ :=
    compileUnits_of_error h
  rw [compile, hunits]
  rfl

/-- The program of the command is built from the units in the order of the scripts. -/
theorem compile_of_ok {units : List (CompiledUnit Nat)}
    (h : ((Session.new board settings).compiled (scripts p)).result = .ok units) :
    compile p board settings = .ok ⟨Program.build units (units.map (·.id)) settings.mark,
      ((Session.new board settings).compiled (scripts p)).state.diagnostics⟩ := by
  have hunits : compileUnits board settings.shouldYield (scripts p) .empty .initial = _ :=
    compileUnits_of_ok h
  rw [compile, hunits]
  rfl

/-- The map of the session lists the units as the command does. -/
theorem programOf_new {units : List (CompiledUnit Nat)}
    (h : ((Session.new board settings).compiled (scripts p)).result = .ok units)
    (hcount : p.scripts.length ≤ UInt32.size) :
    (Session.new board settings).programOf (scripts p) units
      = Program.build units (units.map (·.id)) settings.mark := by
  have hnodup : ((scripts p).map (·.1)).Nodup := by
    rw [map_scripts]
    exact List.nodup_range
  rw [← length_scripts] at hcount
  exact congrArg (Program.build · _ _)
    (Session.values_addUnits_empty (Session.ascending_new h hnodup hcount))

end

/-- On a new session, running the scripts of a project sends the program that compiling it prints,
shows the warnings in the order they are printed, and fails with the same error. Programs are
compared while there is an id for every script. -/
theorem compile_agrees_with_run (p : Project) (board : Board) (settings : Settings) :
    let ran := (Session.new board settings : Session Nat).run (scripts p)
    let acks := ran.session.acknowledgements
    (∀ c, compile p board settings = .ok c →
      ran.result = .ok (some .uploadStart) ∧
      (ran.shown ++ ran.session.shown acks).filterMap Feedback.inert? = c.warnings ∧
      c.warnings.Nodup ∧
      (p.scripts.length ≤ UInt32.size →
        ∃ chunks : List (List UInt8), ran.session.frames acks = chunks.map .chunk ++ [.trailer] ∧
          chunks.flatten = textBytes c.program)) ∧
    ∀ f, compile p board settings = .error f →
      ∃ script e, f = .compileFailed script e ∧ ran.result = .error e := by
  intro ran acks
  cases hcompiled : ((Session.new board settings).compiled (scripts p)).result with
  | error err =>
    obtain ⟨script, e⟩ := err
    have hran : ran.result = .error e := congrArg Reply.result (Session.run_of_error hcompiled)
    rw [compile_of_error hcompiled]
    refine ⟨fun c hc => ?_, fun f hf => ?_⟩
    · cases hc
    · exact ⟨script, e, (Except.error.inj hf).symm, hran⟩
  | ok units =>
    obtain ⟨transfer, htransfer, hran⟩ := Session.run_new hcompiled
    have hran : ran = _ := hran
    rw [compile_of_ok hcompiled]
    refine ⟨fun c hc => ?_, fun f hf => ?_⟩
    · obtain rfl := Except.ok.inj hc
      refine ⟨by rw [hran], ?_, nodup_diagnostics hcompiled List.nodup_nil, fun hcount => ?_⟩
      -- Acknowledgements show how far the upload has come, and no diagnostics.
      · have hacks : (ran.session.shown acks).filterMap Feedback.inert? = [] := by
          rw [List.filterMap_eq_nil_iff]
          intro f hf
          rw [Session.shown_acks _ _ hf]
          rfl
        rw [List.filterMap_append, hacks, List.append_nil, hran, List.filterMap_append,
          filterMap_inert?]
        exact List.append_nil _
      · refine ⟨transfer.pending, ?_, ?_⟩
        · have hdrain : ran.session.upload.drain = _ :=
            Upload.drain_of_current (t := transfer) (by rw [hran]) (by rw [hran]; rfl)
          exact (Session.frames_acks ran.session _).trans (congrArg Prod.fst hdrain)
        · rw [htransfer, programOf_new hcompiled hcount]
          exact flatten_chunksOf _ _
    · cases hf

/-- Two scripts, the second with a block twice that does nothing without a pinout: one warning. -/
theorem compile_agrees_with_run_inert :
    let light : Option Block → Block :=
      .mk "setPinDigital" .command [.literal "4", .literal "1"]
    let p : Project := ⟨"lamp", [.mk "receiveGo" .hat [] none, light (some (light none))]⟩
    let ran := (Session.new .blank {} : Session Nat).run (scripts p)
    ∃ c, compile p .blank {} = .ok c ∧ c.warnings = [⟨.setPinDigital, .noPinout⟩] ∧
      p.scripts.length ≤ UInt32.size ∧
      ran.result = .ok (some .uploadStart) ∧
      ∃ chunks : List (List UInt8),
        ran.session.frames ran.session.acknowledgements = chunks.map .chunk ++ [.trailer] ∧
        chunks.flatten = textBytes c.program := by
  intro light p ran
  have hok : ((compile p .blank {}).toOption.map (·.warnings))
      = some [⟨.setPinDigital, .noPinout⟩] := by
    decide +kernel
  cases hc : compile p .blank {} with
  | error f =>
    rw [hc] at hok
    cases hok
  | ok c =>
    rw [hc] at hok
    obtain ⟨hresult, -, -, hbytes⟩ := (compile_agrees_with_run p .blank {}).1 c hc
    exact ⟨c, rfl, Option.some.inj hok, by decide, hresult, hbytes (by decide)⟩

end CommandLine

end BlockLink
