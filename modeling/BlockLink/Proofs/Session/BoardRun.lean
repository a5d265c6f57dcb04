import BlockLink.Proofs.Device.Trampoline
import BlockLink.Proofs.Session.FirstRun
import BlockLink.Proofs.Session.Highlight

/-!
# `BlockLink/Proofs/Session/BoardRun.lean` — a session and a board agree on a run

A session only knows of its units what the board prints. Between uploads every line is either no
mark of a unit, and then it changes nothing the session believes about units, or it is one, and then
the script with that id is lit or put out (`Hears`). So what is shown about a script is the life of
its unit as it was printed, in whatever way the lines of the units are mixed.

The main statement puts the board in: the units of a first run are started on a trampoline, go
around until none is left, and all that was printed is handed to the session.
-/

set_option autoImplicit false

namespace BlockLink

variable {Origin : Type}

namespace Session

/-- Nothing is on its way, and nothing is awaited. -/
structure Idle (s : Session Origin) : Prop where
  upload : s.upload.current = none
  adhoc : s.adhoc = none
  booting : s.booting = false

theorem Idle.unitEnded {s : Session Origin} (hs : s.Idle) (id : UnitId) :
    (s.unitEnded id).Idle := by
  unfold Session.unitEnded
  split
  · exact ⟨hs.upload, hs.adhoc, hs.booting⟩
  · exact hs

/-- Only the unit that ended is believed to be gone. -/
theorem get?_unitEnded {s : Session Origin} (hsorted : s.units.Sorted) (id j : UnitId) :
    (s.unitEnded id).units.get? j = if j = id then none else s.units.get? j := by
  by_cases halive : s.units.contains id = true
  · rw [unitEnded_of_alive halive]
    exact SortedMap.get?_erase hsorted id j
  · have hgone : s.units.contains id = false := by simpa using halive
    rw [unitEnded_of_gone hgone]
    by_cases hj : j = id
    · rw [if_pos hj, hj]
      simpa [SortedMap.contains] using hgone
    · rw [if_neg hj]

/-! ## Lines between uploads -/

/-- A mark of a unit is shown at its script, if the registry knows one. -/
theorem handleLine_of_mark {s : Session Origin} {text : String} {id : UnitId} {on : Bool}
    (h : (Event.ofLine text).mark? = some (id, on)) :
    (s.registry.resolve id = none → s.handleLine text = ⟨none, [], s⟩) ∧
    ∀ o, s.registry.resolve id = some o →
      s.handleLine text = ⟨none, [.highlight o on], if on then s else s.unitEnded id⟩ := by
  unfold handleLine
  cases hevent : Event.ofLine text with
  | threadStarted j data =>
    rw [hevent] at h
    cases h
    exact ⟨fun hid => by simp only [handleEvent, hid], fun o hid => by
      simp only [handleEvent, hid]; rfl⟩
  | threadEnded j data =>
    rw [hevent] at h
    cases h
    exact ⟨fun hid => by simp only [handleEvent, hid], fun o hid => by
      simp only [handleEvent, hid]; rfl⟩
  | chunkReady | reporterResult _ _ | pinValue _ _ | variableValue _ _ | deviceReady
  | unrecognized _ =>
    rw [hevent] at h
    cases h

variable [DecidableEq Origin]

/-- Any other line changes nothing, and is not shown at a script. -/
theorem handleLine_of_quiet {s : Session Origin} (hs : s.Idle) {text : String}
    (h : (Event.ofLine text).mark? = none) :
    (s.handleLine text).session = s ∧ ∀ o, calls o (s.handleLine text).shown = [] := by
  unfold handleLine
  cases hevent : Event.ofLine text with
  | chunkReady => simp [handleEvent, Upload.chunkReady_of_idle hs.upload, calls]
  | reporterResult unit value =>
    cases unit with
    | adhoc => simp [handleEvent, hs.adhoc, calls]
    | id n =>
      cases hid : s.registry.resolve n <;> simp [handleEvent, hid, calls, Feedback.highlight?]
  | threadStarted id data => simp [hevent, Event.mark?] at h
  | threadEnded id data => simp [hevent, Event.mark?] at h
  | pinValue pin value => simp [handleEvent, calls, Feedback.highlight?]
  | variableValue name value => simp [handleEvent, calls, Feedback.highlight?]
  | deviceReady => simp [handleEvent, hs.booting, calls, Feedback.highlight?]
  | unrecognized line => simp [handleEvent, calls, Feedback.highlight?]

/-- What an idle session comes to by lines, with what it shows. -/
structure Hears (s : Session Origin) (lines : List String) (s' : Session Origin)
    (shown : List (Feedback Origin)) : Prop where
  idle : s'.Idle
  sorted : s'.units.Sorted
  kept : s'.registry = s.registry ∧ s'.board = s.board ∧ s'.settings = s.settings
  /-- What is shown about a script is the life of its unit. -/
  calls : ∀ id o, s.registry.resolve id = some o → calls o shown = lifeOf id lines
  /-- A unit that has ended is not alive. -/
  ended : ∀ id o, s.registry.resolve id = some o → false ∈ lifeOf id lines → s'.units.get? id = none
  fewer : ∀ id u, s'.units.get? id = some u → s.units.get? id = some u
  /-- When a unit was dropped, what was sent is forgotten. -/
  forgets : s'.units = s.units ∧ s'.upload = s.upload ∨ s'.upload.lastSent = none

namespace Hears

theorem refl {s : Session Origin} (hs : s.Idle) (hsorted : s.units.Sorted) : Hears s [] s [] where
  idle := hs
  sorted := hsorted
  kept := ⟨rfl, rfl, rfl⟩
  calls := fun _ _ _ => rfl
  ended := fun _ _ _ h => absurd h List.not_mem_nil
  fewer := fun _ _ h => h
  forgets := .inl ⟨rfl, rfl⟩

theorem trans {s t u : Session Origin} {xs ys : List String} {shown shown' : List (Feedback Origin)}
    (h : Hears s xs t shown) (h' : Hears t ys u shown') :
    Hears s (xs ++ ys) u (shown ++ shown') where
  idle := h'.idle
  sorted := h'.sorted
  kept := ⟨h'.kept.1.trans h.kept.1, h'.kept.2.1.trans h.kept.2.1, h'.kept.2.2.trans h.kept.2.2⟩
  calls := by
    intro id o hid
    have hlater : t.registry.resolve id = some o := by rw [h.kept.1, hid]
    rw [calls_append, lifeOf_append, h.calls id o hid, h'.calls id o hlater]
  -- A unit that ended earlier is not there later, since units only become fewer.
  ended := by
    intro id o hid hend
    have hlater : t.registry.resolve id = some o := by rw [h.kept.1, hid]
    rw [lifeOf_append, List.mem_append] at hend
    rcases hend with hend | hend
    · cases hget : u.units.get? id with
      | none => rfl
      | some unit =>
        have hearlier := h'.fewer id unit hget
        rw [h.ended id o hid hend] at hearlier
        cases hearlier
    · exact h'.ended id o hlater hend
  fewer := fun id unit hget => h.fewer id unit (h'.fewer id unit hget)
  forgets := by
    rcases h'.forgets with ⟨hunits, hupload⟩ | hlost
    · rw [hunits, hupload]
      exact h.forgets
    · exact .inr hlost

end Hears

/-- The life of a unit in one line is what that line shows about its script. -/
theorem calls_of_mark {s : Session Origin} (hr : s.registry.Valid) {text : String} {id : UnitId}
    {on : Bool} (hmark : (Event.ofLine text).mark? = some (id, on)) {o : Origin}
    (hid : s.registry.resolve id = some o) {j : UnitId} {o' : Origin}
    (hj : s.registry.resolve j = some o') : calls o' [.highlight o on] = lifeOf j [text] := by
  rw [lifeOf_of_mark hmark]
  by_cases hjd : j = id
  · subst hjd
    obtain rfl : o = o' := Option.some.inj (hid.symm.trans hj)
    simp [calls, Feedback.highlight?]
  · have hne : o ≠ o' := by
      rintro rfl
      exact hjd (hr.unique _ _ _ hj hid)
    simp [calls, Feedback.highlight?, hjd, hne]

/-- A unit ends: its script is put out, and it is believed to be gone. -/
theorem hears_ended {s : Session Origin} (hs : s.Idle) (hsorted : s.units.Sorted)
    (hr : s.registry.Valid) {text : String} {id : UnitId} {o : Origin}
    (hmark : (Event.ofLine text).mark? = some (id, false)) (hid : s.registry.resolve id = some o) :
    Hears s [text] (s.unitEnded id) [.highlight o false] where
  idle := hs.unitEnded id
  sorted := by
    unfold unitEnded
    split
    · exact hsorted.erase id
    · exact hsorted
  kept := by
    unfold unitEnded
    split <;> exact ⟨rfl, rfl, rfl⟩
  calls := fun _ _ hj => calls_of_mark hr hmark hid hj
  ended := by
    intro j o' _ hend
    rw [get?_unitEnded hsorted]
    -- Only the unit of the mark ends in this line.
    rw [lifeOf_of_mark hmark] at hend
    by_cases hjd : j = id
    · rw [if_pos hjd]
    · simp [hjd] at hend
  fewer := by
    intro j u hget
    rw [get?_unitEnded hsorted] at hget
    by_cases hjd : j = id
    · simp [hjd] at hget
    · rwa [if_neg hjd] at hget
  forgets := by
    unfold unitEnded
    split
    · exact .inr rfl
    · exact .inl ⟨rfl, rfl⟩

/-- A line that leaves the session as it is, and about which what is shown is right. -/
theorem hears_unchanged {s : Session Origin} (hs : s.Idle) (hsorted : s.units.Sorted)
    {text : String} {shown : List (Feedback Origin)}
    (hcalls : ∀ id o, s.registry.resolve id = some o → BlockLink.calls o shown = lifeOf id [text])
    (hend : ∀ id o, s.registry.resolve id = some o → false ∉ lifeOf id [text]) :
    Hears s [text] s shown where
  idle := hs
  sorted := hsorted
  kept := ⟨rfl, rfl, rfl⟩
  calls := hcalls
  ended := fun id o hid hmem => absurd hmem (hend id o hid)
  fewer := fun _ _ h => h
  forgets := .inl ⟨rfl, rfl⟩

/-- One line, whatever it is. -/
theorem hears_line {s : Session Origin} (hs : s.Idle) (hsorted : s.units.Sorted)
    (hr : s.registry.Valid) (text : String) :
    Hears s [text] (s.handleLine text).session (s.handleLine text).shown := by
  cases hmark : (Event.ofLine text).mark? with
  -- The line is no mark.
  | none =>
    obtain ⟨hsession, hcalls⟩ := handleLine_of_quiet hs hmark
    rw [hsession]
    refine hears_unchanged hs hsorted (fun id o _ => ?_) fun id o _ => ?_
    · rw [hcalls, lifeOf_of_quiet hmark]
    · rw [lifeOf_of_quiet hmark]
      exact List.not_mem_nil
  | some mark =>
    obtain ⟨id, on⟩ := mark
    obtain ⟨hunknown, hknown⟩ := handleLine_of_mark (s := s) hmark
    cases hid : s.registry.resolve id with
    | none =>
      rw [hunknown hid]
      -- A mark of a unit that nobody knows: the life of no known unit has it.
      have hother : ∀ j o, s.registry.resolve j = some o → j ≠ id := by
        rintro j o hj rfl
        rw [hid] at hj
        cases hj
      refine hears_unchanged hs hsorted (fun j o hj => ?_) fun j o hj => ?_
      · rw [lifeOf_of_mark hmark, if_neg (hother j o hj)]
        rfl
      · rw [lifeOf_of_mark hmark, if_neg (hother j o hj)]
        exact List.not_mem_nil
    | some o =>
      rw [hknown o hid]
      cases on with
      | false => exact hears_ended hs hsorted hr hmark hid
      -- A beginning lights the script and leaves the session as it is.
      | true =>
        refine hears_unchanged hs hsorted (fun j o' hj => calls_of_mark hr hmark hid hj)
          fun j o' _ => ?_
        rw [lifeOf_of_mark hmark]
        split <;> simp

theorem hears_lines {s : Session Origin} (hs : s.Idle) (hsorted : s.units.Sorted)
    (hr : s.registry.Valid) (lines : List String) :
    Hears s lines (s.after (lines.map .line)) (s.shown (lines.map .line)) := by
  induction lines generalizing s with
  | nil => exact .refl hs hsorted
  | cons text lines ih =>
    have hfirst := hears_line hs hsorted hr text
    have hvalid : (s.handleLine text).session.registry.Valid := by
      rw [hfirst.kept.1]
      exact hr
    exact hfirst.trans (ih hfirst.idle hfirst.sorted hvalid)

/-! ## The first run -/

section

variable {board : Board} {settings : Settings} {scripts : List (Origin × Block)}
  {units : List (CompiledUnit Origin)}

/-- The first run, acknowledged to its end: the units are believed to be alive, and nothing is on
its way. -/
theorem after_upload
    (h : ((new board settings : Session Origin).compiled scripts).result = .ok units) :
    let s : Session Origin := new board settings
    s.after (.run scripts :: (s.run scripts).session.acknowledgements)
      = { s.loaded scripts units with
          upload := { s.upload with lastSent := some (s.programOf scripts units) } } := by
  intro s
  obtain ⟨transfer, htransfer, hrun⟩ := run_new h
  have hrun : s.run scripts = _ := hrun
  have hafter : s.after (.run scripts :: (s.run scripts).session.acknowledgements)
      = (s.run scripts).session.after (s.run scripts).session.acknowledgements := rfl
  have hprogram : transfer.program = s.programOf scripts units := by rw [htransfer]; rfl
  rw [hafter, after_acknowledgements (t := transfer) (by rw [hrun]) (by rw [hrun]; rfl),
    hrun, hprogram]
  rfl

/-- Up to the end of the upload nothing is shown about any script. -/
theorem calls_first_run
    (h : ((new board settings : Session Origin).compiled scripts).result = .ok units) (o : Origin) :
    let s : Session Origin := new board settings
    calls o (s.shown (.run scripts :: (s.run scripts).session.acknowledgements)) = [] := by
  intro s
  obtain ⟨transfer, -, hrun⟩ := run_new h
  have hrun : s.run scripts = _ := hrun
  rw [calls_eq_nil_iff]
  intro on hmem
  rw [shown, List.mem_append] at hmem
  rcases hmem with hmem | hmem
  · have hmem : .highlight o on ∈ (s.run scripts).shown := hmem
    rw [hrun] at hmem
    simp at hmem
  · have hacks := shown_acks _ _ hmem
    cases hacks

/-- What is sent is the program that declares and starts the units, in their order. -/
theorem program_first_run
    (h : ((new board settings : Session Origin).compiled scripts).result = .ok units) :
    let sent := ((new board settings : Session Origin).run scripts).session
    sent.upload.current.map (·.program)
      = some (Program.build sent.units.values (units.map (·.id)) settings.mark) := by
  intro sent
  obtain ⟨transfer, htransfer, hrun⟩ := run_new h
  have hsent : sent = _ := congrArg Reply.session hrun
  rw [hsent, htransfer]
  rfl

/-- The acknowledgements are answered to the end of the program. -/
theorem getLast?_frames_first_run
    (h : ((new board settings : Session Origin).compiled scripts).result = .ok units) :
    let s : Session Origin := new board settings
    (s.frames (.run scripts :: (s.run scripts).session.acknowledgements)).getLast?
      = some .trailer := by
  intro s
  obtain ⟨transfer, -, hrun⟩ := run_new h
  have huploading : (s.run scripts).session.upload.isUploading = true := by
    have hsession : (s.run scripts).session = _ := congrArg Reply.session hrun
    rw [hsession]
    rfl
  have hlast : ((s.perform (.run scripts)).session.frames
      (s.run scripts).session.acknowledgements).getLast?
      = some .trailer :=
    (congrArg List.getLast? (frames_acks _ _)).trans (Upload.getLast?_drain huploading)
  rw [frames, List.getLast?_append, hlast]
  rfl

/-- What compiled once compiles again, with the ids that are held now. -/
theorem compilesIn_uploaded
    (h : ((new board settings : Session Origin).compiled scripts).result = .ok units)
    {script : Origin × Block} (hscript : script ∈ scripts) :
    let s : Session Origin := new board settings
    let uploaded := s.after (.run scripts :: (s.run scripts).session.acknowledgements)
    CompilesIn uploaded.board uploaded.settings.shouldYield uploaded.registry script := by
  intro s uploaded
  have huploaded : uploaded = _ := after_upload h
  rw [huploaded]
  exact compilesIn_of_ok h hscript

/-- An idle session that believes the given units to be alive. -/
structure Holds (s : Session Origin) (units : List (CompiledUnit Origin)) : Prop where
  idle : s.Idle
  registry : s.registry.Valid
  sorted : s.units.Sorted
  held : ∀ u ∈ units, s.registry.resolve u.id = some u.origin
  alive : ∀ u ∈ units, s.units.contains u.id = true
  known : ∀ id u, s.units.get? id = some u → u ∈ units ∧ u.id = id

/-- Behind the upload the session believes all of its units to be alive. -/
theorem holds_uploaded
    (h : ((new board settings : Session Origin).compiled scripts).result = .ok units)
    (hcount : scripts.length ≤ UInt32.size) :
    let s : Session Origin := new board settings
    (s.after (.run scripts :: (s.run scripts).session.acknowledgements)).Holds units := by
  intro s
  have hassigns := assigns_new h
  rw [after_upload h]
  refine ⟨⟨rfl, rfl, rfl⟩, hassigns.valid Registry.valid_empty, sorted_addUnits
    SortedMap.sorted_empty,
    fun u hu => ?_, fun u hu => ?_, fun id u hu => ?_⟩
  · exact hassigns.resolve_unit Registry.valid_empty Registry.exact_empty Registry.below_empty
      (length_le_of_count hcount) hu
  · exact (contains_addUnits SortedMap.sorted_empty).mpr (.inr (List.mem_map_of_mem hu))
  · rcases get?_addUnits SortedMap.sorted_empty hu with hold | hnew
    · cases hold
    · exact hnew

end

theorem Holds.idOf {s : Session Origin} {units : List (CompiledUnit Origin)} (h : s.Holds units)
    {u : CompiledUnit Origin} (hu : u ∈ units) : s.registry.idOf u.origin = some u.id :=
  h.registry.held _ _ (h.held u hu)

/-- The ids that the scripts hold, in their order, are those of the units. -/
theorem Holds.filterMap_idOf {s : Session Origin} {units : List (CompiledUnit Origin)}
    (h : s.Holds units) {scripts : List (Origin × Block)}
    (horigins : units.map (·.origin) = scripts.map (·.1)) :
    scripts.filterMap (fun script => s.registry.idOf script.1) = units.map (·.id) := by
  calc scripts.filterMap (fun script => s.registry.idOf script.1)
      = (scripts.map (·.1)).filterMap s.registry.idOf := by rw [List.filterMap_map]; rfl
    _ = units.filterMap fun u => s.registry.idOf u.origin := by
      rw [← horigins, List.filterMap_map]; rfl
    _ = units.filterMap fun u => some u.id := List.filterMap_congr fun u hu => h.idOf hu
    _ = units.map (·.id) := congrFun List.filterMap_eq_map units

/-- After lines in which each unit comes alive and ends, no unit is left, and a program has to be
sent again. -/
theorem Holds.after_lives {s : Session Origin} {units : List (CompiledUnit Origin)}
    (h : s.Holds units) (hunits : units ≠ []) {lines : List String}
    (hlife : ∀ u ∈ units, lifeOf u.id lines = [true, false]) :
    (s.after (lines.map .line)).units = .empty ∧
      (s.after (lines.map .line)).upload.current = none ∧
      (s.after (lines.map .line)).upload.lastSent = none := by
  have hhears := hears_lines h.idle h.sorted h.registry lines
  -- Every unit that could be left has ended.
  have hnone : ∀ id, (s.after (lines.map .line)).units.get? id = none := by
    intro id
    cases hget : (s.after (lines.map .line)).units.get? id with
    | none => rfl
    | some u =>
      obtain ⟨hu, rfl⟩ := h.known id u (hhears.fewer id u hget)
      have hended := hhears.ended u.id u.origin (h.held u hu) (by rw [hlife u hu]; simp)
      exact hget.symm.trans hended
  have hempty : (s.after (lines.map .line)).units = .empty :=
    SortedMap.ext_get? hhears.sorted SortedMap.sorted_empty hnone
  refine ⟨hempty, hhears.idle.upload, ?_⟩
  rcases hhears.forgets with ⟨hsame, -⟩ | hlost
  -- Something has changed: at the start there was a unit alive.
  · obtain ⟨u, hu⟩ := List.exists_mem_of_ne_nil units hunits
    have halive := h.alive u hu
    rw [← hsame, hempty] at halive
    cases halive
  · exact hlost

/-- With nothing on its way and nothing sent that still counts, scripts that compile are
uploaded. -/
theorem run_uploads {s : Session Origin} (hcurrent : s.upload.current = none)
    (hsent : s.upload.lastSent = none) {scripts : List (Origin × Block)}
    (h : ∀ script ∈ scripts, CompilesIn s.board s.settings.shouldYield s.registry script) :
    (s.run scripts).result = .ok (some .uploadStart) := by
  obtain ⟨units, hcompiled⟩ := compileScripts_again h [] .initial
  have hcompiled : (s.compiled scripts).result = .ok units := hcompiled
  have hnew : s.upload.lastSent ≠ some (s.programOf scripts units) := by
    rw [hsent]
    nofun
  rw [run_of_ok hcompiled, Upload.send_of_idle hcurrent hnew]
  rfl

/-- The units of a first run are started on a board and go around until none is left, and the
session is handed all that was printed. The bodies act on the board as they like but print no
beginning or end of a unit; if each of them returns at last, none is left in the end. Then every
script was lit once and put out once behind it, no unit is believed to be alive, every script holds
the id it had, and any of the scripts can be run again. -/
theorem board_run_agrees {Body : Type} [Coroutine Body] (board : Board) (settings : Settings)
    (scripts : List (Origin × Block)) (hscripts : scripts ≠ []) (hnodup : (scripts.map (·.1)).Nodup)
    (hcount : scripts.length ≤ UInt32.size)
    (hok : ((new board settings : Session Origin).run scripts).result.isOk = true)
    (bodies : UnitId → Body) (d : Device) :
    let fresh : Session Origin := new board settings
    let sent := (fresh.run scripts).session
    let ops : List (Operation Origin) := .run scripts :: sent.acknowledgements
    let uploaded := fresh.after ops
    let ids := scripts.filterMap fun script => uploaded.registry.idOf script.1
    let launched := Trampoline.launch bodies ids d.takeOutput.2
    sent.upload.current.map (·.program)
      = some (Program.build sent.units.values ids settings.mark) ∧
    (fresh.frames ops).getLast? = some .trailer ∧
    ((∀ id ∈ ids, Quiet (bodies id)) →
      ((∀ id ∈ ids, Finishes (bodies id)) → ∃ max, (launched.1.run max launched.2).2.1.live = 0) ∧
      ∀ max, (launched.1.run max launched.2).2.1.live = 0 →
        let lines := (launched.1.run max launched.2).2.2.output.map Operation.line
        let ended := fresh.after (ops ++ lines)
        (∀ script ∈ scripts, calls script.1 (fresh.shown (ops ++ lines)) = [true, false] ∧
          ∃ id, uploaded.registry.idOf script.1 = some id ∧
          ended.registry.idOf script.1 = some id) ∧
        ended.units = .empty ∧
        ∀ again, (∀ script ∈ again, script ∈ scripts) →
          (ended.run again).result = .ok (some .uploadStart)) := by
  intro fresh sent ops uploaded ids launched
  obtain ⟨units, hcompiled⟩ := exists_compiled hok
  have horigins : units.map (·.origin) = scripts.map (·.1) := (assigns_new hcompiled).map_origin
  have hholds : uploaded.Holds units := holds_uploaded hcompiled hcount
  have hids : ids = units.map (·.id) := hholds.filterMap_idOf horigins
  have hunits : units ≠ [] := by
    rintro rfl
    exact hscripts (List.map_eq_nil_iff.mp horigins.symm)
  have hdistinct : ids.Nodup := by
    rw [hids]
    exact (ascending_new hcompiled hnodup hcount).imp fun hlt => UInt32.ne_of_lt hlt
  refine ⟨?_, getLast?_frames_first_run hcompiled, fun hquiet =>
    ⟨fun hfinishes => ?_, fun max hlive => ?_⟩⟩
  · rw [hids]
    exact program_first_run hcompiled
  -- If every body returns at last, the trampoline goes around until none is left.
  · obtain ⟨htracks, hends⟩ := Trampoline.tracks_launch Trampoline.keptByTurns_finishes hdistinct
      hquiet hfinishes (d := d.takeOutput.2) rfl
    exact htracks.exists_run _ hends (Nat.le_refl _)
  · intro lines ended
    obtain ⟨htracks, -⟩ := Trampoline.tracks_launch Trampoline.keptByTurns_quiet
      hdistinct hquiet hquiet
      (d := d.takeOutput.2) rfl
    -- What each unit printed of its own life, however the turns were mixed.
    have hlife : ∀ u ∈ units,
        lifeOf u.id (launched.1.run max launched.2).2.2.output = [true, false] := by
      intro u hu
      have hmem : u.id ∈ ids := by rw [hids]; exact List.mem_map_of_mem hu
      rw [(htracks.run max).life_of_ended hlive, if_pos hmem]
    have hended : ended = uploaded.after lines := fresh.after_append ops lines
    have hhears : uploaded.Hears _ (uploaded.after lines) (uploaded.shown lines) :=
      hears_lines hholds.idle hholds.sorted hholds.registry _
    obtain ⟨hempty, hcurrent, hforgotten⟩ := hholds.after_lives hunits hlife
    rw [hended]
    refine ⟨fun script hscript => ?_, hempty, fun again hagain => ?_⟩
    -- A script was lit and put out as its unit lived.
    · have hmem : script.1 ∈ units.map (·.origin) := by
        rw [horigins]
        exact List.mem_map_of_mem hscript
      obtain ⟨u, hu, horigin⟩ := List.mem_map.mp hmem
      rw [← horigin, hhears.kept.1]
      refine ⟨?_, u.id, hholds.idOf hu, hholds.idOf hu⟩
      rw [shown_append, calls_append, calls_first_run hcompiled, List.nil_append,
        hhears.calls u.id u.origin (hholds.held u hu), hlife u hu]
    -- All of the registry was kept, so what compiled then compiles now.
    · refine run_uploads hcurrent hforgotten fun script hscript => ?_
      obtain ⟨hregistry, hboard, hsettings⟩ := hhears.kept
      rw [hregistry, hboard, hsettings]
      exact compilesIn_uploaded hcompiled (hagain script hscript)

/-- Two scripts whose turns are mixed; one of them prints what looks like an acknowledgement. -/
theorem board_run_agrees_two :
    let go : Block := .mk "receiveGo" .hat [] none
    let stop : Block := .mk "doStopThis" .command [] none
    let scripts := [(7, go), (3, stop)]
    let bodies : UnitId → List Turn := fun id =>
      if id = 0 then [⟨[.write 4 1], false⟩, ⟨[.print "C", .readInto 4 "lamp"], false⟩]
      else [⟨[.set "lamp" "rc:0:"], true⟩]
    let fresh : Session Nat := new .blank {}
    let ops : List (Operation Nat) :=
      .run scripts :: (fresh.run scripts).session.acknowledgements
    let ids := scripts.filterMap fun script => (fresh.after ops).registry.idOf script.1
    let launched := Trampoline.launch bodies ids Device.initial.takeOutput.2
    (fresh.run scripts).result.isOk = true ∧ (∀ id, Quiet (bodies id) ∧ Finishes (bodies id)) ∧
      ∃ max, (launched.1.run max launched.2).2.1.live = 0 ∧
        let lines := (launched.1.run max launched.2).2.2.output.map Operation.line
        calls 7 (fresh.shown (ops ++ lines)) = [true, false] ∧
          calls 3 (fresh.shown (ops ++ lines)) = [true, false] ∧
          (fresh.after (ops ++ lines)).units = .empty ∧
          ((fresh.after (ops ++ lines)).run [(3, stop)]).result = .ok (some .uploadStart) := by
  -- The other names of the statement stay as they are: unfolding them would run the upload.
  intro go stop scripts bodies
  have hok : ((new .blank {} : Session Nat).run scripts).result.isOk = true := by decide +kernel
  have hbodies : ∀ id, Quiet (bodies id) ∧ Finishes (bodies id) := by
    intro id
    refine ⟨quiet_turns ?_, finishes_turns _⟩
    by_cases hid : id = 0
    · simp only [bodies, if_pos hid]
      decide +kernel
    · simp only [bodies, if_neg hid]
      decide +kernel
  obtain ⟨-, -, hagrees⟩ := board_run_agrees .blank {} scripts (by simp [scripts])
    (by simp [scripts]) (by decide) hok bodies Device.initial
  obtain ⟨hends, hrun⟩ := hagrees fun id _ => (hbodies id).1
  obtain ⟨max, hlive⟩ := hends fun id _ => (hbodies id).2
  obtain ⟨hcalls, hempty, hagain⟩ := hrun max hlive
  have hstop : (3, stop) ∈ scripts := by simp [scripts]
  refine ⟨hok, hbodies, max, hlive, (hcalls (7, go) (by simp [scripts])).1,
    (hcalls (3, stop) hstop).1, hempty, hagain _ fun script hscript => ?_⟩
  rw [List.mem_singleton.mp hscript]
  exact hstop

end Session

end BlockLink
