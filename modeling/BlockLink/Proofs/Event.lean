import BlockLink.Event
import BlockLink.Proofs.Text.Digits

/-!
# `BlockLink/Proofs/Event.lean` — lines with a tag

A tagged line is split at its first two colons, so the last field may hold anything, and line ends
are taken off behind it. `ofLine_tagged` is the reading of such a line, and the lines about units
follow from it because an id is spelled in digits.
-/

set_option autoImplicit false

namespace BlockLink

open BlockLink.Text

namespace Text

/-- What is dropped at the end stops at the last character that is kept. -/
theorem dropEnd_append_cons {drop : Char → Bool} {c : Char} (hc : drop c = false)
    (pre rest : List Char) : dropEnd drop (pre ++ c :: rest) = pre ++ c :: dropEnd drop rest := by
  induction pre with
  | nil =>
    rw [List.nil_append, dropEnd]
    split
    · rename_i hnil
      simp [hc, hnil]
    · rfl
  | cons x pre ih =>
    rw [List.cons_append, dropEnd, ih]
    split
    · rename_i hnil
      exact absurd hnil (by simp)
    · rfl

theorem dropEnd_eq_nil_iff {drop : Char → Bool} {cs : List Char} :
    dropEnd drop cs = [] ↔ ∀ c ∈ cs, drop c = true := by
  induction cs with
  | nil => simp [dropEnd]
  | cons c cs ih =>
    rw [dropEnd, List.forall_mem_cons, ← ih]
    cases dropEnd drop cs with
    | nil => simp
    | cons d kept => simp

/-- What is dropped stands behind what is kept, and the last character that is kept stays. -/
theorem exists_dropEnd (drop : Char → Bool) (cs : List Char) :
    ∃ dropped, cs = dropEnd drop cs ++ dropped ∧ (∀ c ∈ dropped, drop c = true) ∧
      ∀ c ∈ (dropEnd drop cs).getLast?, drop c = false := by
  induction cs with
  | nil => exact ⟨[], rfl, by simp, by simp [dropEnd]⟩
  | cons c cs ih =>
    obtain ⟨dropped, hcs, hdropped, hlast⟩ := ih
    rw [dropEnd]
    split
    · rename_i hnil
      rw [hnil, List.nil_append] at hcs
      cases hc : drop c with
      | true => exact ⟨c :: dropped, by simp [hcs], by simpa [hc] using hdropped, by simp⟩
      | false => exact ⟨dropped, by simp [hcs], hdropped, by simp [hc]⟩
    · rename_i hne
      refine ⟨dropped, ?_, hdropped, ?_⟩
      · rw [List.cons_append, ← hcs]
      · rw [List.getLast?_cons_of_ne_nil hne]
        exact hlast

/-- All that can be dropped at the end is dropped, and nothing else. -/
theorem dropEnd_eq_iff {drop : Char → Bool} {cs kept : List Char} :
    dropEnd drop cs = kept ↔ ∃ dropped, cs = kept ++ dropped ∧ (∀ c ∈ dropped, drop c = true) ∧
      ∀ c ∈ kept.getLast?, drop c = false := by
  constructor
  · rintro rfl
    exact exists_dropEnd drop cs
  · rintro ⟨dropped, rfl, hdropped, hlast⟩
    have hnil := dropEnd_eq_nil_iff.mpr hdropped
    rcases List.eq_nil_or_concat kept with rfl | ⟨front, c, rfl⟩
    · exact hnil
    · have hc : drop c = false := hlast c (by simp)
      rw [List.concat_eq_append, List.append_assoc, List.singleton_append,
        dropEnd_append_cons hc, hnil]

theorem dropEnd_eq_singleton_iff {drop : Char → Bool} {c : Char} (hc : drop c = false)
    {cs : List Char} :
    dropEnd drop cs = [c] ↔ ∃ rest, cs = c :: rest ∧ ∀ d ∈ rest, drop d = true := by
  simp [dropEnd_eq_iff, hc]

end Text

namespace Event

theorem tagged?_ne_chunkReady (tag key value : List Char) :
    tagged? tag key value ≠ some .chunkReady := by
  unfold tagged?
  split
  · split <;> simp
  · simp
  · simp
  · simp
  · split <;> simp
  · simp

theorem untagged_ne_chunkReady (cs : List Char) : untagged cs ≠ .chunkReady := by
  unfold untagged
  split <;> simp

/-- Splitting at a colon loses nothing but the colon. -/
theorem eq_of_splitColon? {cs field rest : List Char} (h : splitColon? cs = some (field, rest)) :
    cs = field ++ ':' :: rest := by
  induction cs generalizing field with
  | nil => cases h
  | cons c cs ih =>
    rw [splitColon?] at h
    split at h
    · rename_i hc
      cases h
      rw [hc, List.nil_append]
    · obtain ⟨⟨field', rest'⟩, hsplit, heq⟩ := Option.map_eq_some_iff.mp h
      cases heq
      rw [ih hsplit, List.cons_append]

/-- A line that is not the letter alone is read from its fields, or has no tag. -/
theorem ofChars_cases {cs : List Char} (h : cs ≠ ['C']) :
    (∃ tag key value, cs = tag ++ ':' :: (key ++ ':' :: value) ∧
      tagged? tag key value = some (ofChars cs)) ∨ ofChars cs = untagged cs := by
  rw [ofChars, if_neg h]
  cases hfirst : splitColon? cs with
  | none => exact Or.inr rfl
  | some fields =>
    obtain ⟨tag, rest⟩ := fields
    simp only [Option.bind_eq_bind, Option.bind_some]
    cases hsecond : splitColon? rest with
    | none => exact Or.inr rfl
    | some fields =>
      obtain ⟨key, value⟩ := fields
      simp only [Option.bind_some]
      cases htagged : tagged? tag key value with
      | none => exact Or.inr rfl
      | some event =>
        refine Or.inl ⟨tag, key, value, ?_, htagged⟩
        rw [eq_of_splitColon? hfirst, eq_of_splitColon? hsecond]

/-- Only the letter alone, with its line end, is the acknowledgement. -/
theorem ofLine_eq_chunkReady_iff {line : String} :
    ofLine line = .chunkReady ↔ stripLineEnd line.toList = ['C'] := by
  unfold ofLine
  generalize stripLineEnd line.toList = cs
  constructor
  · intro h
    apply Classical.byContradiction
    intro hmark
    rcases ofChars_cases hmark with ⟨tag, key, value, -, htagged⟩ | huntagged
    · rw [h] at htagged
      exact tagged?_ne_chunkReady tag key value htagged
    · rw [h] at huntagged
      exact untagged_ne_chunkReady cs huntagged.symm
  · rintro rfl
    rfl

/-- The field ends at its first colon, and what is behind may have more of them. -/
theorem splitColon?_append {field : List Char} (h : ':' ∉ field) (rest : List Char) :
    splitColon? (field ++ ':' :: rest) = some (field, rest) := by
  induction field with
  | nil => simp [splitColon?]
  | cons c field ih =>
    have hc : c ≠ ':' := fun heq => h (by simp [heq])
    have hrest : ':' ∉ field := fun hmem => h (List.mem_cons_of_mem _ hmem)
    simp [splitColon?, hc, ih hrest]

theorem ne_chunkReady_of_colon (tag rest : List Char) : tag ++ ':' :: rest ≠ ['C'] := by
  intro heq
  have hmem : ':' ∈ ['C'] := by rw [← heq]; simp
  exact absurd hmem (by decide)

theorem ofChars_tagged {tag key value : List Char} (htag : ':' ∉ tag) (hkey : ':' ∉ key)
    {event : Event} (h : tagged? tag key value = some event) :
    ofChars (tag ++ ':' :: (key ++ ':' :: value)) = event := by
  rw [ofChars, if_neg (ne_chunkReady_of_colon _ _)]
  simp [splitColon?_append htag, splitColon?_append hkey, h]

/-- A line of a tag, a key and a value, whatever the value holds. -/
theorem ofLine_tagged {tag key value : List Char} (htag : ':' ∉ tag) (hkey : ':' ∉ key)
    {event : Event} (h : tagged? tag key (stripLineEnd value) = some event) :
    ofLine (String.ofList (tag ++ ':' :: (key ++ ':' :: value))) = event := by
  have hstrip : stripLineEnd (tag ++ ':' :: (key ++ ':' :: value))
      = tag ++ ':' :: (key ++ ':' :: stripLineEnd value) := by
    unfold stripLineEnd
    rw [dropEnd_append_cons (by decide), dropEnd_append_cons (by decide)]
  rw [ofLine, String.toList_ofList, hstrip]
  exact ofChars_tagged htag hkey h

theorem colon_notMem_wordDigits (n : UInt32) : ':' ∉ wordDigits n :=
  fun h => absurd (isDigit_of_mem_wordDigits h) (by decide)

/-- A line whose second field is a number, in the form in which the board prints it. -/
theorem ofLine_of_word (tag : List Char) (n : UInt32) (data : String) (htag : ':' ∉ tag)
    {line : String} (hline : line.toList = tag ++ ':' :: (wordDigits n ++ ':' :: data.toList))
    {event : Event} (h : tagged? tag (wordDigits n) (stripLineEnd data.toList) = some event) :
    ofLine line = event := by
  rw [← String.ofList_toList (s := line), hline]
  exact ofLine_tagged htag (colon_notMem_wordDigits n) h

/-- The line a board prints when a unit came alive. -/
theorem ofLine_started (id : UnitId) (data : String) :
    ofLine ("rc:" ++ wordText id ++ ":" ++ data)
      = .threadStarted id (String.ofList (stripLineEnd data.toList)) := by
  refine ofLine_of_word ['r', 'c'] id data (by decide) ?_ ?_
  · simp [toList_wordText]
  · simp [tagged?, readWord?_wordDigits]

/-- The line a board prints when a unit has ended. -/
theorem ofLine_ended (id : UnitId) (data : String) :
    ofLine ("dc:" ++ wordText id ++ ":" ++ data)
      = .threadEnded id (String.ofList (stripLineEnd data.toList)) := by
  refine ofLine_of_word ['d', 'c'] id data (by decide) ?_ ?_
  · simp [toList_wordText]
  · simp [tagged?, readWord?_wordDigits]

/-! ## Beginnings and ends

Two tags are about the life of a unit. All others are quiet: they say nothing about which units are
alive. -/

/-- The unit whose beginning (`true`) or end (`false`) an event is. -/
def mark? : Event → Option (UnitId × Bool)
  | .threadStarted id _ => some (id, true)
  | .threadEnded id _ => some (id, false)
  | _ => none

/-- Of the tags only two are those of marks. -/
theorem mark?_of_tagged? {tag key value : List Char} {event : Event}
    (h : tagged? tag key value = some event) (hrc : tag ≠ ['r', 'c']) (hdc : tag ≠ ['d', 'c']) :
    event.mark? = none := by
  unfold tagged? at h
  split at h
  · split at h
    · cases h
      rfl
    · obtain ⟨id, -, rfl⟩ := Option.map_eq_some_iff.mp h
      rfl
  · exact absurd rfl hrc
  · exact absurd rfl hdc
  · obtain ⟨pin, -, rfl⟩ := Option.map_eq_some_iff.mp h
    rfl
  · split at h
    · cases h
    · cases h
      rfl
  · cases h

theorem mark?_untagged (cs : List Char) : (untagged cs).mark? = none := by
  unfold untagged
  split <;> rfl

/-- A line with another tag is no beginning or end, whatever is behind the tag. -/
theorem mark?_of_tag (tag rest : List Char) {line : String}
    (hline : line.toList = tag ++ ':' :: rest) (htag : ':' ∉ tag) (hrc : tag ≠ ['r', 'c'])
    (hdc : tag ≠ ['d', 'c']) :
    (ofLine line).mark? = none := by
  have hstrip : stripLineEnd line.toList = tag ++ ':' :: stripLineEnd rest := by
    rw [hline]
    exact dropEnd_append_cons (by decide) _ _
  rw [ofLine, hstrip, ofChars, if_neg (ne_chunkReady_of_colon _ _)]
  simp only [splitColon?_append htag, Option.bind_eq_bind, Option.bind_some]
  cases splitColon? (stripLineEnd rest) with
  | none => exact mark?_untagged _
  | some fields =>
    obtain ⟨key, value⟩ := fields
    simp only [Option.bind_some]
    cases htagged : tagged? tag key value with
    | none => exact mark?_untagged _
    | some event => exact mark?_of_tagged? htagged hrc hdc

end Event

end BlockLink
