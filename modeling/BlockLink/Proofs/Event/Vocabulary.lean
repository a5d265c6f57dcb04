import BlockLink.Proofs.Event

/-!
# `BlockLink/Proofs/Event/Vocabulary.lean` — which lines are reports

A board reports on units and pins in lines with a tag, a number and a text. The reader takes exactly
these lines: what it gives back is what the line says, and whatever it takes for a report is spelled
as one, up to the line end and the spelling of the number (`reports_read_exactly`). A line that it
does not know comes back as it is, without its line end, and is not known when it is read again.
-/

set_option autoImplicit false

namespace BlockLink

open BlockLink.Text

namespace Event

/-! ## Line ends

Any number of them is taken off, in any mixture. What is left does not end in one, and that is what
makes it the only answer. -/

/-- What is left of a line without the line ends behind it. -/
def Strips (line : String) (text : List Char) : Prop :=
  ∃ ends, line.toList = text ++ ends ∧ (∀ c ∈ ends, c = '\r' ∨ c = '\n') ∧
    ∀ c ∈ text.getLast?, c ≠ '\r' ∧ c ≠ '\n'

theorem isLineEnd_iff {c : Char} : isLineEnd c = true ↔ c = '\r' ∨ c = '\n' := by
  simp [isLineEnd]

theorem isLineEnd_eq_false_iff {c : Char} : isLineEnd c = false ↔ c ≠ '\r' ∧ c ≠ '\n' := by
  simp [isLineEnd]

theorem stripLineEnd_eq_iff {line : String} {text : List Char} :
    stripLineEnd line.toList = text ↔ Strips line text := by
  simp only [stripLineEnd, dropEnd_eq_iff, isLineEnd_iff, isLineEnd_eq_false_iff, Strips]

/-! ## Reports

Several spellings of a number are read as the same one: with a plus sign, or with zeros in front. A
board prints only one of them. -/

/-- What a board reports on: the value of a unit or a clicked reporter, a unit that came alive or
ended, or the level of a pin. -/
inductive Report where
  | value (unit : UnitRef)
  | started (id : UnitId)
  | ended (id : UnitId)
  | pin (n : UInt32)
  deriving DecidableEq, Repr

namespace Report

/-- The letters in front of the first colon. -/
def tag : Report → List Char
  | .value _ => ['p', 'b']
  | .started _ => ['r', 'c']
  | .ended _ => ['d', 'c']
  | .pin _ => ['p', 'v']

/-- What stands between the colons when a board prints the report. -/
def key : Report → String
  | .value unit => unit.text
  | .started id | .ended id => wordText id
  | .pin n => wordText n

/-- What may stand between the colons. -/
def Spelled : Report → List Char → Prop
  | .value .adhoc, key => key = ['r']
  | .value (.id id), key | .started id, key | .ended id, key => SpellsWord key id
  | .pin n, key => SpellsWord key n

/-- The event of the report with a text. -/
def event : Report → String → Event
  | .value unit => .reporterResult unit
  | .started id => .threadStarted id
  | .ended id => .threadEnded id
  | .pin n => .pinValue n

/-- The line that a board prints. -/
def line (r : Report) (text : String) : String :=
  String.ofList r.tag ++ ":" ++ r.key ++ ":" ++ text

/-- The report that an event is, and its text. -/
def ofEvent? : Event → Option (Report × String)
  | .reporterResult unit text => some (.value unit, text)
  | .threadStarted id text => some (.started id, text)
  | .threadEnded id text => some (.ended id, text)
  | .pinValue n text => some (.pin n, text)
  | _ => none

theorem ofEvent?_event (r : Report) (text : String) : ofEvent? (r.event text) = some (r, text) := by
  cases r <;> rfl

theorem colon_notMem_tag (r : Report) : ':' ∉ r.tag := by
  cases r <;> simp [tag]

/-- Numbers are spelled in digits, with a sign in front of them or none. -/
theorem colon_notMem_of_spellsWord {key : List Char} {n : UInt32} (h : SpellsWord key n) :
    ':' ∉ key := by
  obtain ⟨digits, hkey, -, hdigits, -⟩ := h
  have hcolon : ':' ∉ digits := fun hmem => absurd (hdigits ':' hmem) (by decide)
  rcases hkey with rfl | rfl
  · exact hcolon
  · simpa using hcolon

/-- Between the first two colons of a report there is no other. -/
theorem Spelled.colon_notMem {r : Report} {key : List Char} (h : r.Spelled key) : ':' ∉ key := by
  cases r with
  | value unit =>
    cases unit with
    | adhoc =>
      obtain rfl : key = ['r'] := h
      decide
    | id id => exact colon_notMem_of_spellsWord h
  | started id | ended id | pin n => exact colon_notMem_of_spellsWord h

/-- What a board prints is one of the spellings. -/
theorem spelled_key (r : Report) : r.Spelled r.key.toList := by
  have hword : ∀ n, SpellsWord (wordText n).toList n := by
    intro n
    rw [toList_wordText]
    exact spellsWord_wordDigits n
  cases r with
  | value unit =>
    cases unit with
    | adhoc => rfl
    | id id => exact hword id
  | started id | ended id | pin n => exact hword _

/-- The fields of a report are read, however its number is spelled. -/
theorem tagged?_of_spelled {r : Report} {key : List Char} (h : r.Spelled key) (value : List Char) :
    tagged? r.tag key value = some (r.event (String.ofList value)) := by
  cases r with
  | value unit =>
    cases unit with
    | adhoc =>
      obtain rfl : key = ['r'] := h
      rfl
    | id id =>
      have hread := readWord?_eq_some_iff.mpr h
      have hkey : key ≠ ['r'] := by
        rintro rfl
        cases hread
      simp [tagged?, tag, event, hkey, hread]
  | started id | ended id | pin n => simp [tagged?, tag, event, readWord?_eq_some_iff.mpr h]

/-- Fields that are read are those of a report, or of a variable. -/
theorem exists_of_tagged? {tag key value : List Char} {event : Event}
    (h : tagged? tag key value = some event) :
    (∃ r : Report, tag = r.tag ∧ r.Spelled key ∧ event = r.event (String.ofList value)) ∨
      ∃ name, event = .variableValue name (String.ofList value) := by
  unfold tagged? at h
  -- One case for each tag, the first with the key of an evaluation or an id.
  split at h
  · split at h
    · rename_i hkey
      cases h
      exact Or.inl ⟨.value .adhoc, rfl, hkey, rfl⟩
    · obtain ⟨id, hread, rfl⟩ := Option.map_eq_some_iff.mp h
      exact Or.inl ⟨.value (.id id), rfl, readWord?_eq_some_iff.mp hread, rfl⟩
  · obtain ⟨id, hread, rfl⟩ := Option.map_eq_some_iff.mp h
    exact Or.inl ⟨.started id, rfl, readWord?_eq_some_iff.mp hread, rfl⟩
  · obtain ⟨id, hread, rfl⟩ := Option.map_eq_some_iff.mp h
    exact Or.inl ⟨.ended id, rfl, readWord?_eq_some_iff.mp hread, rfl⟩
  · obtain ⟨n, hread, rfl⟩ := Option.map_eq_some_iff.mp h
    exact Or.inl ⟨.pin n, rfl, readWord?_eq_some_iff.mp hread, rfl⟩
  · split at h
    · cases h
    · cases h
      exact Or.inr ⟨_, rfl⟩
  · cases h

end Report

/-! ## Lines -/

/-- A line is spelled as a report and read as it; or it is read as something else, and comes back
without its line end if it is not known. -/
theorem ofLine_cases (line : String) :
    (∃ (r : Report) (key : List Char) (text : String), r.Spelled key ∧
      Strips line (r.tag ++ ':' :: (key ++ ':' :: text.toList)) ∧ ofLine line = r.event text) ∨
    Report.ofEvent? (ofLine line) = none ∧ ∀ x, ofLine line = .unrecognized x →
    Strips line x.toList := by
  have hstrips : Strips line (stripLineEnd line.toList) := stripLineEnd_eq_iff.mp rfl
  -- The acknowledgement comes before all other readings.
  by_cases hmark : stripLineEnd line.toList = ['C']
  · rw [ofLine_eq_chunkReady_iff.mpr hmark]
    exact Or.inr ⟨rfl, fun x h => Event.noConfusion h⟩
  · rcases ofChars_cases hmark with ⟨tag, key, value, hline, htagged⟩ | huntagged
    · rcases Report.exists_of_tagged? htagged with ⟨r, rfl, hkey, hevent⟩ | ⟨name, hevent⟩
      · refine Or.inl ⟨r, key, String.ofList value, hkey, ?_, hevent⟩
        rw [String.toList_ofList, ← hline]
        exact hstrips
      · rw [ofLine, hevent]
        exact Or.inr ⟨rfl, fun x h => Event.noConfusion h⟩
    · rw [ofLine, huntagged, untagged]
      split
      · exact Or.inr ⟨rfl, fun x h => Event.noConfusion h⟩
      · refine Or.inr ⟨rfl, fun x h => ?_⟩
        cases h
        rw [String.toList_ofList]
        exact hstrips

theorem ofLine_of_strips {r : Report} {key : List Char} {line text : String} (hkey : r.Spelled key)
    (h : Strips line (r.tag ++ ':' :: (key ++ ':' :: text.toList))) :
    ofLine line = r.event text := by
  rw [ofLine, stripLineEnd_eq_iff.mpr h]
  refine ofChars_tagged r.colon_notMem_tag hkey.colon_notMem ?_
  rw [Report.tagged?_of_spelled hkey, String.ofList_toList]

/-- The line that a board prints is stripped to its fields. -/
theorem strips_line (r : Report) {text ends : String}
    (htext : ∀ c ∈ text.toList.getLast?, c ≠ '\r' ∧ c ≠ '\n')
    (hends : ∀ c ∈ ends.toList, c = '\r' ∨ c = '\n') :
    Strips (r.line text ++ ends) (r.tag ++ ':' :: (r.key.toList ++ ':' :: text.toList)) := by
  refine ⟨ends.toList, ?_, hends, ?_⟩
  · simp [Report.line]
  · intro c hc
    cases hlast : text.toList.getLast? with
    | none =>
      obtain rfl : c = ':' := by
        simpa [List.getLast?_append, List.getLast?_cons, hlast] using hc.symm
      decide
    | some d =>
      obtain rfl : c = d := by simpa [List.getLast?_append, List.getLast?_cons, hlast] using hc.symm
      exact htext c hlast

/-- A line that is not known has nothing left to strip, so it is read as before. -/
theorem ofLine_of_unrecognized {line x : String} (h : ofLine line = .unrecognized x)
    (hstrips : Strips line x.toList) : ofLine x = .unrecognized x := by
  have hsame : Strips x x.toList := by
    obtain ⟨-, -, -, hlast⟩ := hstrips
    exact ⟨[], by simp, by simp, hlast⟩
  rw [ofLine, stripLineEnd_eq_iff.mpr hsame, ← stripLineEnd_eq_iff.mpr hstrips]
  exact h

/-- A line is read as a report exactly if it is spelled as one, and the reports that a board prints
are spelled so. A line that is not known comes back without its line end, and is not known then
either. -/
theorem reports_read_exactly (line : String) :
    (∀ (r : Report) (text : String), ofLine line = r.event text ↔
      ∃ key, r.Spelled key ∧ Strips line (r.tag ++ ':' :: (key ++ ':' :: text.toList))) ∧
    (∀ (r : Report) (text ends : String), (∀ c ∈ text.toList.getLast?, c ≠ '\r' ∧ c ≠ '\n') →
      (∀ c ∈ ends.toList, c = '\r' ∨ c = '\n') → ofLine (r.line text ++ ends) = r.event text) ∧
    ∀ x, ofLine line = .unrecognized x → Strips line x.toList ∧ ofLine x = .unrecognized x := by
  refine ⟨fun r text => ⟨fun h => ?_, ?_⟩, fun r text ends htext hends => ?_, fun x h => ?_⟩
  · rcases ofLine_cases line with ⟨r', key, text', hkey, hstrips, hevent⟩ | ⟨hnone, -⟩
    · have hsame := congrArg Report.ofEvent? (h.symm.trans hevent)
      rw [Report.ofEvent?_event, Report.ofEvent?_event] at hsame
      cases hsame
      exact ⟨key, hkey, hstrips⟩
    · rw [h, Report.ofEvent?_event] at hnone
      cases hnone
  · rintro ⟨key, hkey, hstrips⟩
    exact ofLine_of_strips hkey hstrips
  · exact ofLine_of_strips r.spelled_key (strips_line r htext hends)
  · rcases ofLine_cases line with ⟨r, key, text, -, -, hevent⟩ | ⟨-, hstrips⟩
    · have hsame := congrArg Report.ofEvent? (hevent.symm.trans h)
      rw [Report.ofEvent?_event] at hsame
      cases hsame
    · exact ⟨hstrips x h, ofLine_of_unrecognized h (hstrips x h)⟩

/-- A number with a sign, zeros and a text with a colon; the largest number; and one beyond it,
which is none. -/
theorem reports_read_exactly_limits :
    (∃ key, SpellsWord key 7 ∧
      Strips "pb:+007:a:b\r\n\r" (['p', 'b'] ++ ':' :: (key ++ ':' :: "a:b".toList))) ∧
    ofLine ((Report.pin 4294967295).line "1\r2" ++ "\n\r\n") = .pinValue 4294967295 "1\r2" ∧
    Strips "pb:4294967296:x\n" "pb:4294967296:x".toList ∧
    ofLine "pb:4294967296:x" = .unrecognized "pb:4294967296:x" := by
  have hlast : "1\r2".toList.getLast? = some '2' := rfl
  have hends : "\n\r\n".toList.all isLineEnd = true := by decide
  refine ⟨((reports_read_exactly _).1 (.value (.id 7)) "a:b").mp (by decide +kernel),
    (reports_read_exactly "").2.1 (.pin 4294967295) _ _ ?_ ?_,
    (reports_read_exactly _).2.2 _ (by decide +kernel)⟩
  · intro c hc
    obtain rfl : '2' = c := Option.some.inj (hlast.symm.trans hc)
    decide
  · intro c hc
    exact isLineEnd_iff.mp (List.all_eq_true.mp hends c hc)

end Event

end BlockLink
