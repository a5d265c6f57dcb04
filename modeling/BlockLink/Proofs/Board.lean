import BlockLink.Board.Basic
import BlockLink.Proofs.Lua.Name

/-!
# `BlockLink/Proofs/Board.lean` — the names that an accepted board puts into code

A board is accepted by the characters of its names alone: those of digital pins and of pins with
pulse width modulation must have the shape of a Lua name, and the channel of an analog input may be
anything made of letters, digits, underscores and dots. Into code they go without quotes, a name as
a field of the table of pins and a channel as an argument.

Whether Lua then reads a field and an argument is not only a matter of characters. A name must not
be a reserved word, and a channel must be a numeral or a path (`accepted_names_valid_iff`); the
check looks at neither.
-/

set_option autoImplicit false

namespace BlockLink

open BlockLink.Text BlockLink.Lua

namespace Board

theorem isChannel_iff {s : String} :
    isChannel s = true ↔ s.toList ≠ [] ∧ ∀ c ∈ s.toList, isNameChar c = true ∨ c = '.' := by
  simp [isChannel]

/-- What is checked of a board: names have the shape of one, and channels are made of the same
characters and dots. -/
theorem check_eq_ok_iff {b : Board} :
    b.check = .ok b ↔ ∀ p, b.pinout = some p →
      (∀ mode, mode ≠ .analog → ∀ e ∈ (p.table mode).entries, isIdentifier e.2 = true) ∧
        ∀ e ∈ (p.table .analog).entries, isChannel e.2 = true := by
  have hcheck : b.check = .ok b ↔ b.badPin? = none := by
    unfold check
    split
    · rename_i h
      exact iff_of_false nofun (by simp [h])
    · rename_i h
      exact iff_of_true rfl h
  -- The tables are looked through in the order output, input, pulse width, and then the channels.
  rw [hcheck, badPin?]
  cases b.pinout with
  | none => simp
  | some p =>
    simp only [Option.bind_some, Option.or_eq_none_iff, List.find?_eq_none, Bool.not_eq_true',
      Bool.not_eq_false, List.mem_append, Option.some.injEq, forall_eq']
    refine and_congr_left fun _ => ⟨fun h mode hmode e he => ?_, fun h e he => ?_⟩
    · cases mode with
      | output => exact h e (.inl (.inl he))
      | input => exact h e (.inl (.inr he))
      | pwm => exact h e (.inr he)
      | analog => exact absurd rfl hmode
    · rcases he with (he | he) | he
      · exact h .output (by decide) e he
      · exact h .input (by decide) e he
      · exact h .pwm (by decide) e he

end Board

/-- Of what an accepted board puts into code, exactly this is valid. A name is one unless it is a
reserved word, and only then Lua reads a field behind the table of pins. A channel that begins with
a digit or a dot must be a numeral, and any other must have names between its dots; only then Lua
reads an argument. -/
theorem accepted_names_valid_iff {b : Board} (hb : b.check = .ok b) {p : Pinout}
    (hp : b.pinout = some p) :
    (∀ mode, mode ≠ .analog → ∀ e ∈ (p.table mode).entries,
      (IsName e.2.toList ↔ e.2 ∉ reservedWords) ∧
        (readsAs isAccess ("pio." ++ e.2).toList = true ↔ IsName e.2.toList)) ∧
    ∀ e ∈ (p.table .analog).entries,
      (isNumeral e.2.toList = true ∨ IsPath e.2.toList ↔ isChannelText e.2.toList = true) ∧
        (readsAs isArgument e.2.toList = true ↔ isNumeral e.2.toList = true ∨
        IsPath e.2.toList) := by
  obtain ⟨hnames, hchannels⟩ := Board.check_eq_ok_iff.1 hb p hp
  constructor
  · intro mode hmode e he
    have hshape : isIdentifierChars e.2.toList = true := hnames mode hmode e he
    refine ⟨?_, ?_⟩
    · rw [isName_iff, String.ofList_toList]
      exact and_iff_right hshape
    · rw [String.toList_append]
      exact readsAs_field_iff hshape
  · intro e he
    obtain ⟨-, hchars⟩ := Board.isChannel_iff.1 (hchannels e he)
    exact ⟨(isChannelText_iff hchars).symm, readsAs_argument_iff hchars⟩

/-- Names that only look like reserved words, and channels of every kind. -/
def namedBoard : Board :=
  ⟨"", some ⟨⟨[(2, "P2")]⟩, ⟨[(4, "End")]⟩, ⟨[(5, "adc.CH4"), (6, "0x1F"), (7, ".5e3")]⟩,
  ⟨[(8, "_and")]⟩⟩, none⟩

/-- Names that begin like a reserved word are no reserved words, and numerals may begin with a
dot. -/
theorem accepted_names_valid_every_kind :
    namedBoard.check = .ok namedBoard ∧
      (IsName "End".toList ∧ readsAs isAccess "pio.End".toList = true) ∧
      (IsName "_and".toList ∧ readsAs isAccess "pio._and".toList = true) ∧
      ((isNumeral "adc.CH4".toList = true ∨ IsPath "adc.CH4".toList) ∧
        readsAs isArgument "adc.CH4".toList = true) ∧
      (isNumeral ".5e3".toList = true ∨ IsPath ".5e3".toList) ∧
      readsAs isArgument ".5e3".toList = true := by
  have hb : namedBoard.check = .ok namedBoard := rfl
  obtain ⟨hnames, hchannels⟩ := accepted_names_valid_iff hb rfl
  obtain ⟨hinput, hinput'⟩ := hnames .input (by decide) (4, "End") (by decide)
  obtain ⟨hpwm, hpwm'⟩ := hnames .pwm (by decide) (8, "_and") (by decide)
  obtain ⟨hpath, hpath'⟩ := hchannels (5, "adc.CH4") (by decide)
  obtain ⟨hnumeral, hnumeral'⟩ := hchannels (7, ".5e3") (by decide)
  have hend := hinput.2 (by decide)
  have hand := hpwm.2 (by decide)
  have hadc := hpath.2 (by decide +kernel)
  have hpoint := hnumeral.2 (by decide +kernel)
  exact ⟨hb, ⟨hend, hinput'.2 hend⟩, ⟨hand, hpwm'.2 hand⟩, ⟨hadc, hpath'.2 hadc⟩, hpoint,
    hnumeral'.2 hpoint⟩

/-- A reserved word as a name, and a channel with two points among digits. -/
def unreadableBoard : Board :=
  ⟨"", some { Pinout.empty with digitalOutput := ⟨[(2, "end")]⟩, analogInput :=
  ⟨[(34, "1.2.3"), (35, "a..b")]⟩ },
    none⟩

/-- Such a board is accepted, and Lua reads neither a field nor an argument. -/
theorem accepted_names_unreadable :
    unreadableBoard.check = .ok unreadableBoard ∧
      (¬ IsName "end".toList ∧ readsAs isAccess "pio.end".toList = false) ∧
      (¬ (isNumeral "1.2.3".toList = true ∨ IsPath "1.2.3".toList) ∧
        readsAs isArgument "1.2.3".toList = false) ∧
      ¬ (isNumeral "a..b".toList = true ∨ IsPath "a..b".toList) ∧
      readsAs isArgument "a..b".toList = false := by
  have hchannel {cs : List Char} (hcs : (cs.all fun c => isNameChar c || c == '.') = true)
      (h : isChannelText cs = false) : ¬ (isNumeral cs = true ∨ IsPath cs) := by
    rw [← isChannelText_iff (by simpa using hcs), h]
    exact Bool.false_ne_true
  refine ⟨rfl, ⟨fun h => h.free (by decide), by decide +kernel⟩, ⟨?_, by decide +kernel⟩, ?_,
    by decide +kernel⟩
  · exact hchannel (by decide) (by decide +kernel)
  · exact hchannel (by decide) (by decide +kernel)

end BlockLink
