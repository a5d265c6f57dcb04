import BlockLink.Compile.Template
import BlockLink.Proofs.Lua.Phrase
import BlockLink.Proofs.Text.Digits

/-!
# `BlockLink/Proofs/Lua/PinPhrase.lean` — guards and uses of pins, read from their text

A guard, the use of a pin and the reading of one in a function of its own are each written by one
template, whatever the pin, its name and its mode. For a name that a checked board may have
(`Admits`) the text of each is cut into the tokens of the phrase that the reader knows, with the
number and the name in their places. So it is read with the sign that it is meant to have, if the
name is readable there (`isReadable`), and is refused if it is not: nothing else can come out
(`isStatements_guard`, `isStatements_operation`, `isValue_operation`, `isValue_readPin`).
-/

set_option autoImplicit false

namespace BlockLink.Lua

open BlockLink.Text

/-! ## Names

What a checked board may call a pin, and what the reader takes at the place of a name. The first is
about characters, the second about tokens, and between them stands the lexer. -/

/-- Words and dots end between two tokens: there is no comment and no string to be in. -/
theorem ending_eq_of_lex {cs : List Char} (hcs : ∀ c ∈ cs, isNameChar c = true ∨ c = '.')
    {l : Lexed} (h : lex cs = some l) : l.ending = .between := by
  obtain ⟨⟨ts, q⟩, hrun, hend⟩ := Option.bind_eq_some_iff.1 h
  obtain ⟨l', hfinish, rfl⟩ := Option.map_eq_some_iff.1 hend
  rcases Lexer.finish_of_isPlain (Lexer.spells_run (q := .gap) trivial hcs hrun).plain with
    ⟨us, hfinish'⟩ | ⟨text, -, -, hnone⟩
  · cases hfinish.symm.trans hfinish'
    rfl
  · cases hfinish.symm.trans hnone

/-- What a name on a board is made of: the name of a digital pin has the shape of one, and a channel
is made of words and dots. -/
def Admits : PinMode → String → Prop
  | .analog, name => ∀ c ∈ name.toList, isNameChar c = true ∨ c = '.'
  | _, name => isIdentifierChars name.toList = true

/-- Whether a name is read where it is spliced in: it is not reserved, and a channel is a numeral or
a path. -/
def isReadable : PinMode → String → Bool
  | .analog, name => isChannelText name.toList
  | _, name => !reservedWords.contains name

/-- The tokens of a name where it is spliced in. -/
def nameTokens? : PinMode → String → Option (List Token)
  | .analog, name => (lex name.toList).map (·.tokens)
  | _, name => some [.word name.toList]

/-- Whether the tokens are those of a name where it is spliced in. -/
def takesName : PinMode → List Token → Bool
  | .analog, ts => isArgument ts
  | _, ts => isAccess ts

/-- A name is readable exactly if its tokens are taken where it is spliced in. -/
theorem isReadable_eq {mode : PinMode} {name : String} (h : Admits mode name) :
    isReadable mode name = (nameTokens? mode name).any (takesName mode) := by
  cases mode with
  | output | input | pwm => simp [isReadable, nameTokens?, takesName, isAccess]
  | analog =>
    rw [isReadable, Bool.eq_iff_iff, isChannelText_iff h, ← readsAs_argument_iff h,
      readsAs, nameTokens?]
    cases hlex : lex name.toList with
    | none => rfl
    | some l => simp [takesName, ending_eq_of_lex h hlex]

/-- The tokens of a name are words, numerals and dots, so no bracket ends the phrase early. -/
theorem not_bracket_of_nameTokens? {mode : PinMode} {name : String} (h : Admits mode name)
    {ts : List Token} (hts : nameTokens? mode name = some ts) :
    ∀ t ∈ ts, t ≠ .symbol [')'] ∧ ∀ bytes, t ≠ .string bytes := by
  cases mode with
  | output | input | pwm =>
    cases hts
    simp
  | analog =>
    obtain ⟨l, hlex, rfl⟩ := Option.map_eq_some_iff.1 hts
    obtain ⟨hspells, hsound⟩ := spells_lex h hlex
    refine fun t ht => ⟨?_, ?_⟩
    · rintro rfl
      have hmem : ')' ∈ name.toList := hspells ▸ List.mem_flatMap.2
        ⟨_, ht, List.mem_singleton.2 rfl⟩
      exact absurd (h _ hmem) (by decide)
    · rintro bytes rfl
      exact hsound _ ht

/-! ## Their texts

Between the fixed texts, which are run through the lexer by evaluation, stand the number and the
name. The lexer comes to each of them in a state in which it cannot run on over its end. -/

section Texts

open Pat

/-- The tokens of a part of a phrase in which nothing is left open. -/
def fixed (pats : List Pat) : List Token :=
  pats.flatMap (Pat.tokens [] [])

theorem isDigits_wordDigits (n : UInt32) : isDigits (wordDigits n) = true :=
  isDigits_of_digits (wordDigits_ne_nil n) fun _ => isDigit_of_mem_wordDigits

theorem run_entry_word (pin : Pin) :
    Lexer.run (.square 0) (wordDigits pin ++ [']'])
      = some ([.symbol ['['], .numeral (wordDigits pin), .symbol [']']], .gap) :=
  Lexer.run_entry (isDigits_wordDigits pin)

/-- The setup as the lexer goes through it: fixed texts, with the number and the name between
them. -/
theorem toList_setup (pin : Pin) (name : String) :
    (Template.setup pin name .output).toList
        = "pio.pin.setdir(pio.OUTPUT, pio.".toList ++ (name.toList ++ [')']) ∧
      (Template.setup pin name .input).toList
        = "pio.pin.setdir(pio.INPUT, pio.".toList ++ (name.toList ++ [')']) ∧
      (Template.setup pin name .pwm).toList
        = "cfg.w[".toList ++ (wordDigits pin ++ [']']) ++ " = pwm.attach(pio.".toList
          ++ (name.toList ++ [',']) ++ " 1000, 0) cfg.w[".toList ++ (wordDigits pin ++ [']'])
          ++ ":start()".toList ∧
      (Template.setup pin name .analog).toList
        = "cfg.a[".toList ++ (wordDigits pin ++ [']'])
          ++ " = adc.setup(adc.ADC1, adc.AVDD, 3220):setupchan(12, ".toList
          ++ (name.toList ++ [')']) := by
  have hclose : ")".toList = [')'] := rfl
  have hattach : "] = pwm.attach(pio.".toList = ']' :: " = pwm.attach(pio.".toList := rfl
  have hduty : ", 1000, 0) cfg.w[".toList = ',' :: " 1000, 0) cfg.w[".toList := rfl
  have hstart : "]:start()".toList = ']' :: ":start()".toList := rfl
  have hchannel : "] = adc.setup(adc.ADC1, adc.AVDD, 3220):setupchan(12, ".toList
      = ']' :: " = adc.setup(adc.ADC1, adc.AVDD, 3220):setupchan(12, ".toList := rfl
  unfold Template.setup
  simp only [String.toList_append, List.append_assoc, List.cons_append, List.nil_append,
    toList_wordText, hclose, hattach, hduty, hstart, hchannel, and_self]

theorem toList_operation (pin : Pin) (name : String) :
    (Template.operation pin name .output).toList
        = "pio.pin.setval(v, pio.".toList ++ (name.toList ++ [')']) ∧
      (Template.operation pin name .input).toList
        = "pio.pin.getval(pio.".toList ++ (name.toList ++ [')']) ∧
      (Template.operation pin name .pwm).toList
        = "cfg.w[".toList ++ (wordDigits pin ++ [']']) ++ ":setduty(v / 100)".toList ∧
      (Template.operation pin name .analog).toList
        = "cfg.a[".toList ++ (wordDigits pin ++ [']']) ++ ":read()".toList := by
  have hclose : ")".toList = [')'] := rfl
  have hduty : "]:setduty(v / 100)".toList = ']' :: ":setduty(v / 100)".toList := rfl
  have hread : "]:read()".toList = ']' :: ":read()".toList := rfl
  unfold Template.operation
  simp only [String.toList_append, List.append_assoc, List.cons_append, List.nil_append,
    toList_wordText, hclose, hduty, hread, and_self]

theorem toList_guard (pin : Pin) (mode : PinMode) (setup : String) :
    (Code.guard pin mode setup).render.toList
      = "if cfg.p[".toList ++ (wordDigits pin ++ [']'])
        ++ (" ~= ".toList ++ (Nat.repr mode.code).toList ++ " then ".toList) ++ setup.toList
        ++ " cfg.p[".toList ++ (wordDigits pin ++ [']'])
        ++ (" = ".toList ++ (Nat.repr mode.code).toList ++ " end ".toList) := by
  have hdiffers : "] ~= ".toList = ']' :: " ~= ".toList := rfl
  have hbecomes : "] = ".toList = ']' :: " = ".toList := rfl
  unfold Code.render
  simp only [String.toList_append, List.append_assoc, List.cons_append, List.nil_append,
    toList_wordText, hdiffers, hbecomes]

/-- The statements that put a pin into a mode are their phrase. -/
theorem run_setup (pin : Pin) {name : String} {mode : PinMode} (hname : Admits mode name) :
    Lexer.run .gap (Template.setup pin name mode).toList
      = (nameTokens? mode name).map fun ts =>
        ((Phrase.setup mode).flatMap (Pat.tokens (wordDigits pin) ts), .gap) := by
  obtain ⟨houtput, hinput, hpwm, hanalog⟩ := toList_setup pin name
  have hentry := run_entry_word pin
  cases mode with
  | output =>
    have hfront : Lexer.run .gap "pio.pin.setdir(pio.OUTPUT, pio.".toList
        = some (fixed (word "pio" :: fields ["pin", "setdir"] ++ symbol '(' :: word "pio"
          :: fields ["OUTPUT"] ++ [symbol ',', word "pio"]), .symbol ['.']) := by decide
    rw [houtput]
    exact (Lexer.run_append_of_eq hfront (Lexer.run_field hname rfl)).trans rfl
  | input =>
    have hfront : Lexer.run .gap "pio.pin.setdir(pio.INPUT, pio.".toList
        = some (fixed (word "pio" :: fields ["pin", "setdir"] ++ symbol '(' :: word "pio"
          :: fields ["INPUT"] ++ [symbol ',', word "pio"]), .symbol ['.']) := by decide
    rw [hinput]
    exact (Lexer.run_append_of_eq hfront (Lexer.run_field hname rfl)).trans rfl
  -- The number stands in this phrase twice.
  | pwm =>
    have htable : Lexer.run .gap "cfg.w[".toList
        = some (fixed (word "cfg" :: fields ["w"]), .square 0) := by decide
    have hattach : Lexer.run .gap " = pwm.attach(pio.".toList
        = some (fixed (symbol '=' :: word "pwm" :: fields ["attach"] ++ [symbol '(', word "pio"]),
          .symbol ['.']) := by decide
    have hduty : Lexer.run .gap " 1000, 0) cfg.w[".toList
        = some (fixed ([number "1000", symbol ',', number "0", symbol ')', word "cfg"]
          ++ fields ["w"]), .square 0) := by decide
    have hstart : Lexer.run .gap ":start()".toList
        = some (fixed (symbol ':' :: word "start" :: arguments []), .gap) := by decide
    rw [hpwm]
    exact (Lexer.run_append_of_eq (Lexer.run_append_of_eq (Lexer.run_append_of_eq
      (Lexer.run_append_of_eq
        (Lexer.run_append_of_eq (Lexer.run_append_of_eq htable hentry) hattach)
        (Lexer.run_field hname (c := ',') rfl)) hduty) hentry) hstart).trans rfl
  -- The channel is the one part that the lexer may refuse, so nothing comes out of the whole then.
  | analog =>
    have htable : Lexer.run .gap "cfg.a[".toList
        = some (fixed (word "cfg" :: fields ["a"]), .square 0) := by decide
    have hsetup : Lexer.run .gap " = adc.setup(adc.ADC1, adc.AVDD, 3220):setupchan(12, ".toList
        = some (fixed (symbol '=' :: word "adc" :: fields ["setup"] ++ symbol '(' :: word "adc"
          :: fields ["ADC1"] ++ symbol ',' :: word "adc" :: fields ["AVDD"]
          ++ [symbol ',', number "3220", symbol ')', symbol ':', word "setupchan", symbol '(',
            number "12", symbol ',']), .gap) := by decide
    rw [hanalog, Lexer.run_append, Lexer.run_append_of_eq
      (Lexer.run_append_of_eq htable hentry) hsetup,
      Option.bind_some, Lexer.run_argument hname, nameTokens?]
    have hparts : Phrase.setup .analog = (Phrase.setup .analog).dropLast ++ [.channel] := rfl
    cases lex name.toList with
    | none => rfl
    | some l =>
      simp only [Option.map_some]
      rw [hparts, List.flatMap_append, List.flatMap_singleton]
      rfl

/-- The table that the use of a pin begins with. -/
def tableOf : PinMode → String
  | .output | .input => "pio"
  | .pwm | .analog => "cfg"

/-- The use of a pin is its phrase. Only a digital pin has its name in it. -/
theorem run_operation (pin : Pin) {name : String} {mode : PinMode} (hname : Admits mode name) :
    Lexer.run .gap (Template.operation pin name mode).toList
      = some ((word (tableOf mode) :: Phrase.use mode).flatMap
        (Pat.tokens (wordDigits pin) [.word name.toList]), .gap) := by
  obtain ⟨houtput, hinput, hpwm, hanalog⟩ := toList_operation pin name
  have hentry := run_entry_word pin
  cases mode with
  | output =>
    have hfront : Lexer.run .gap "pio.pin.setval(v, pio.".toList
        = some (fixed (word "pio" :: fields ["pin", "setval"]
          ++ [symbol '(', word "v", symbol ',', word "pio"]), .symbol ['.']) := by decide
    rw [houtput]
    exact (Lexer.run_append_of_eq hfront (Lexer.run_field hname rfl)).trans rfl
  | input =>
    have hfront : Lexer.run .gap "pio.pin.getval(pio.".toList
        = some (fixed (word "pio" :: fields ["pin", "getval"] ++ [symbol '(', word "pio"]),
          .symbol ['.']) := by decide
    rw [hinput]
    exact (Lexer.run_append_of_eq hfront (Lexer.run_field hname rfl)).trans rfl
  -- The two modes that are kept in a table are used by the number of the pin.
  | pwm =>
    have htable : Lexer.run .gap "cfg.w[".toList
        = some (fixed (word "cfg" :: fields ["w"]), .square 0) := by decide
    have hduty : Lexer.run .gap ":setduty(v / 100)".toList
        = some (fixed (symbol ':' :: word "setduty"
          :: arguments [[word "v", symbol '/', number "100"]]), .gap) := by decide
    rw [hpwm]
    exact (Lexer.run_append_of_eq (Lexer.run_append_of_eq htable hentry) hduty).trans rfl
  | analog =>
    have htable : Lexer.run .gap "cfg.a[".toList
        = some (fixed (word "cfg" :: fields ["a"]), .square 0) := by decide
    have hread : Lexer.run .gap ":read()".toList
        = some (fixed (symbol ':' :: word "read" :: arguments []), .gap) := by decide
    rw [hanalog]
    exact (Lexer.run_append_of_eq (Lexer.run_append_of_eq htable hentry) hread).trans rfl

/-- A guard is its phrase. -/
theorem run_guard (pin : Pin) {name : String} {mode : PinMode} (hname : Admits mode name) :
    Lexer.run .gap (Code.guard pin mode (Template.setup pin name mode)).render.toList
      = (nameTokens? mode name).map fun ts =>
        ((word "if" :: word "cfg" :: Phrase.guard mode).flatMap (Pat.tokens (wordDigits pin) ts),
          .gap) := by
  have hentry := run_entry_word pin
  have hopen : Lexer.run .gap "if cfg.p[".toList
      = some (fixed (word "if" :: word "cfg" :: fields ["p"]), .square 0) := by decide
  have hdiffers : Lexer.run .gap (" ~= ".toList ++ (Nat.repr mode.code).toList ++ " then ".toList)
      = some (fixed [exactly (.symbol ['~', '=']), number (Nat.repr mode.code), word "then"],
      .gap) := by
    cases mode <;> decide
  have htable : Lexer.run .gap " cfg.p[".toList
      = some (fixed (word "cfg" :: fields ["p"]), .square 0) := by decide
  have hbecomes : Lexer.run .gap (" = ".toList ++ (Nat.repr mode.code).toList ++ " end ".toList)
      = some (fixed [symbol '=', number (Nat.repr mode.code), word "end"], .gap) := by
    cases mode <;> decide
  have hfront := Lexer.run_append_of_eq (Lexer.run_append_of_eq hopen hentry) hdiffers
  have hback := Lexer.run_append_of_eq (Lexer.run_append_of_eq htable hentry) hbecomes
  have hsetup := run_setup pin hname
  rw [toList_guard, List.append_assoc, List.append_assoc, ← List.append_assoc " cfg.p[".toList]
  rw [Lexer.run_append, Lexer.run_append, hfront, Option.bind_some, hsetup]
  -- The phrase is cut where the text is: in front of the setup, and behind it.
  have hparts : word "if" :: word "cfg" :: Phrase.guard mode
      = (word "if" :: word "cfg" :: fields ["p"] ++ entry
          ++ [exactly (.symbol ['~', '=']), number (Nat.repr mode.code), word "then"])
        ++ (Phrase.setup mode ++ (word "cfg" :: fields ["p"] ++ entry
          ++ [symbol '=', number (Nat.repr mode.code), word "end"])) := by simp [Phrase.guard]
  cases nameTokens? mode name with
  | none => rfl
  | some ts =>
    simp only [Option.map_some, Option.bind_some, hback]
    simp only [hparts, List.flatMap_append, List.append_assoc]
    rfl

end Texts

/-! ## Reading them

A few first tokens may begin several phrases. They are run through by evaluation, up to where only
one phrase is left, and then `Reader.run_phrase` takes over. -/

section Readings

open Pat

variable {P : Prop} {mode : PinMode} {name : String} {ts : List Token}

theorem ofList_wordDigits (n : UInt32) : String.ofList (wordDigits n) = wordText n := by
  rw [← toList_wordText, String.ofList_toList]

theorem exists_word_of_nameTokens? (hmode : mode ≠ .analog)
    (hts : nameTokens? mode name = some ts) :
    ts = [.word name.toList] := by
  cases mode with
  | output | input | pwm =>
    cases hts
    rfl
  | analog => exact absurd rfl hmode

/-- A guard up to the number of the mode. -/
def guardFront (mode : PinMode) : List Pat :=
  word "if" :: word "cfg" :: (Phrase.guard mode).take 7

/-- The rest of a guard. -/
def guardRest (mode : PinMode) : List Pat :=
  (Phrase.guard mode).drop 7

/-- Up to the number of the mode the guards of all modes are alike. Behind it only one phrase is
left. -/
theorem guard_eq_append (mode : PinMode) :
    word "if" :: word "cfg" :: Phrase.guard mode = guardFront mode ++ guardRest mode := by
  rw [guardFront, guardRest, List.cons_append, List.cons_append, List.take_append_drop]

theorem guardRest_ne_nil (mode : PinMode) : guardRest mode ≠ [] := by
  cases mode <;> exact List.cons_ne_nil _ _

theorem accepts_guardRest (mode : PinMode) (ts : List Token) :
    (guardRest mode).all (Pat.accepts ts) = takesName mode ts := by
  cases mode <;> exact Bool.and_true _

/-- What is kept of a guard is its number, as often as it stands there, so the guard names one
pin. -/
theorem pin?_guard (number : List Char) (hts : nameTokens? mode name = some ts) (m : Meaning) :
    Phrase.pin? ⟨m, [], [.numeral number] ++ (guardRest mode).flatMap (Pat.kept number ts), []⟩
      = some (String.ofList number) := by
  have hall : ∀ n, (List.replicate n number).all (· == number) = true := by simp
  cases mode with
  | output | input =>
    cases hts
    exact if_pos (hall 1)
  | pwm =>
    cases hts
    exact if_pos (hall 3)
  | analog => exact if_pos (hall 2)

theorem word_of_mem_guardRest (hts : nameTokens? mode name = some ts)
    (h : Pat.name ∈ guardRest mode) : ∃ letters, ts = [.word letters] := by
  refine ⟨name.toList, exists_word_of_nameTokens? ?_ hts⟩
  rintro rfl
  exact absurd h (by decide)

/-- A guard puts its pin into its mode, wherever it stands. -/
theorem isStatements_guard (hname : Admits mode name)
    (hP : P → isReadable mode name = true) (pin : Pin) :
    IsStatements P (Code.guard pin mode (Template.setup pin name mode)).render.toList
      [.guard (wordText pin) mode] := by
  intro top below htop
  have hlex := run_guard pin hname
  rw [isReadable_eq hname] at hP
  cases hts : nameTokens? mode name with
  | none =>
    rw [hts] at hlex hP
    exact .inr ⟨by rw [Spot.follow, hlex]; rfl, fun h => Bool.false_ne_true (hP h)⟩
  | some ts =>
    rw [hts] at hlex hP
    -- Behind the number of the mode there is only one phrase left.
    have hfront : Reader.run ⟨[.around true], .settled, []⟩
        ((guardFront mode).flatMap (Pat.tokens (wordDigits pin) ts))
          = some ([], ⟨[.condition] ++ [.around true], .condition,
            [⟨.guard mode, guardRest mode, [.numeral (wordDigits pin)], []⟩]⟩) := by
      cases mode <;> rfl
    have hlike : Reader.Like top below true ⟨[.around true], .settled, []⟩
        ⟨top :: below, .settled, []⟩ := ⟨⟨[], rfl, rfl⟩, rfl, .inl rfl⟩
    simp only [guard_eq_append, Option.map_some, List.flatMap_append] at hlex
    have hplace := Reader.run_front hlike (fun _ => htop) hfront (by decide)
    rw [Spot.follow_phrase hlex (not_bracket_of_nameTokens? hname hts) (word_of_mem_guardRest hts)
      (guardRest_ne_nil mode) hplace, accepts_guardRest]
    cases hreadable : takesName mode ts with
    | false => exact .inr ⟨rfl, fun h => Bool.false_ne_true (hreadable ▸ hP h)⟩
    | true =>
      refine .inl ?_
      rw [if_pos rfl, Phrase.effect, if_pos ⟨rfl, rfl⟩, pin?_guard _ hts, ofList_wordDigits]
      rfl

/-- What a pin is called where it is used. -/
def handleOf (mode : PinMode) (pin : Pin) (name : String) : String :=
  match mode with
  | .output | .input => name
  | .pwm | .analog => wordText pin

/-- The use of a pin is read from the function or the number on. -/
def useRest (mode : PinMode) : List Pat :=
  (Phrase.use mode).drop 4

theorem useRest_ne_nil (mode : PinMode) : useRest mode ≠ [] := by
  cases mode <;> exact List.cons_ne_nil _ _

/-- The token that is kept of it. -/
def handleToken (mode : PinMode) (pin : Pin) (name : String) : Token :=
  match mode with
  | .output | .input => .word name.toList
  | .pwm | .analog => .numeral (wordDigits pin)

theorem kept_use (mode : PinMode) (pin : Pin) (name : String) :
    (Phrase.use mode).flatMap (Pat.kept (wordDigits pin) [.word name.toList])
      = [handleToken mode pin name] := by
  cases mode <;> rfl

theorem handle?_use (m : Meaning) (kept : List Token) (mode : PinMode) (pin : Pin) (name : String) :
    Phrase.handle? ⟨m, [], kept ++ [handleToken mode pin name], []⟩
      = some (handleOf mode pin name) := by
  cases mode <;> simp [Phrase.handle?, handleToken, handleOf, ofList_wordDigits]

/-- Whether the tokens are those of a name where a pin is used. Analog pins are used by number. -/
def takesHandle : PinMode → List Token → Bool
  | .output, ts | .input, ts => isAccess ts
  | .pwm, _ | .analog, _ => true

theorem accepts_useRest (mode : PinMode) (ts : List Token) :
    (useRest mode).all (Pat.accepts ts) = takesHandle mode ts := by
  cases mode with
  | output | input => exact Bool.and_true _
  | pwm | analog => rfl

theorem isReadable_of_takesHandle (hname : Admits mode name)
    (h : takesHandle mode [.word name.toList] = false) : isReadable mode name = false := by
  rw [isReadable_eq hname]
  cases mode with
  | output | input => exact h
  | pwm | analog => cases h

/-- The use of a pin is one behind everything but a dot. -/
theorem follow_operation (hname : Admits mode name) (pin : Pin) (prior : Prior)
    (hprior : prior ≠ .dot) (top : Level) (below : List Level) :
    Spot.follow ⟨.gap, ⟨top :: below, prior, []⟩⟩ (Template.operation pin name mode).toList
        = some ([.use mode (handleOf mode pin name)], ⟨.gap, ⟨top :: below, .settled, []⟩⟩) ∨
      Spot.follow ⟨.gap, ⟨top :: below, prior, []⟩⟩ (Template.operation pin name mode).toList
        = none ∧
        isReadable mode name = false := by
  have hlex := run_operation pin hname
  have hsplit : word (tableOf mode) :: Phrase.use mode
      = (word (tableOf mode) :: (Phrase.use mode).take 4) ++ useRest mode := by
    rw [List.cons_append, useRest, List.take_append_drop]
  rw [hsplit, List.flatMap_append] at hlex
  -- Four words in, only one phrase is left.
  have hfront : Reader.run ⟨top :: below, prior, []⟩
      ((word (tableOf mode) :: (Phrase.use mode).take 4).flatMap
        (Pat.tokens (wordDigits pin) [.word name.toList]))
        = some ([], ⟨top :: below, prior, [⟨.use mode, useRest mode,
          ((Phrase.use mode).take 4).flatMap (Pat.kept (wordDigits pin) [.word name.toList]),
          []⟩]⟩) := by
    have hbegin : Reader.run ⟨top :: below, prior, []⟩ [.word (tableOf mode).toList]
        = some ([], ⟨top :: below, prior, Phrase.beginning (tableOf mode).toList⟩) := by
      rw [Reader.run_singleton]
      cases mode <;> exact Reader.take_beginning hprior rfl top below
    refine Reader.run_append_of_eq hbegin ?_
    cases mode <;> rfl
  -- What the reader has kept of it is the handle of the pin.
  have hkept : ((Phrase.use mode).take 4).flatMap (Pat.kept (wordDigits pin) [.word name.toList])
        ++ (useRest mode).flatMap (Pat.kept (wordDigits pin) [.word name.toList])
      = [] ++ [handleToken mode pin name] := by
    rw [← List.flatMap_append, useRest, List.take_append_drop, kept_use, List.nil_append]
  rw [Spot.follow_phrase hlex (by simp) (fun _ => ⟨_, rfl⟩) (useRest_ne_nil mode) hfront, hkept,
    Phrase.effect, handle?_use, accepts_useRest]
  cases haccepts : takesHandle mode [.word name.toList] with
  | true => exact .inl rfl
  | false => exact .inr ⟨rfl, isReadable_of_takesHandle hname haccepts⟩

theorem isStatements_operation (hname : Admits mode name) (hP : P → isReadable mode name = true)
    (pin : Pin) : IsStatements P (Template.operation pin name mode).toList
      [.use mode (handleOf mode pin name)] := by
  intro top below _
  rcases follow_operation hname pin .settled (by decide) top below with h | ⟨h, hbad⟩
  · exact .inl h
  · exact .inr ⟨h, fun hp => Bool.false_ne_true (hbad ▸ hP hp)⟩

theorem isValue_operation (hname : Admits mode name) (hP : P → isReadable mode name = true)
    (pin : Pin) : IsValue P (Template.operation pin name mode).toList
      [.use mode (handleOf mode pin name)] := by
  intro top below prior hprior
  have hdot : prior ≠ .dot := by
    rintro rfl
    cases hprior
  rcases follow_operation hname pin prior hdot top below with h | ⟨h, hbad⟩
  · exact .inl ⟨_, [], _, h, rfl, rfl⟩
  · exact .inr ⟨h, fun hp => Bool.false_ne_true (hbad ▸ hP hp)⟩

/-- A guarded reading is read from the number of the mode on. -/
def readingRest (mode : PinMode) : List Pat :=
  guardRest mode ++ [word "return"] ++ (word (tableOf mode) :: Phrase.use mode)
    ++ (word "end" :: symbol ')' :: arguments [])

/-- A guarded reading is a function around the guard and the use, which is called at once. -/
theorem toList_readPin (pin : Pin) (mode : PinMode) (name setup : String) :
    (Template.readPin (some (.guard pin mode setup)) pin name mode).render.toList
      = "(function() ".toList ++ (Code.guard pin mode setup).render.toList ++ "return ".toList
        ++ (Template.operation pin name mode).toList ++ " end)()".toList := by
  have hrender : (Template.readPin (some (.guard pin mode setup)) pin name mode).render
      = "(function()" ++ (" " ++ (Code.guard pin mode setup).render ++ "return "
        ++ Template.operation pin name mode ++ " ") ++ "end)()" := rfl
  have hopen : "(function()".toList ++ [' '] = "(function() ".toList := rfl
  have hblank : " ".toList = [' '] := rfl
  have hclose : ' ' :: "end)()".toList = " end)()".toList := rfl
  rw [hrender, ← hopen, ← hclose]
  simp only [String.toList_append, hblank, List.append_assoc, List.cons_append, List.nil_append]

/-- A guarded reading is its phrase, in brackets. -/
theorem run_readPin (hname : Admits mode name) (hmode : mode = .input ∨ mode = .analog)
    (pin : Pin) :
    Lexer.run .gap
        (Template.readPin (some (.guard pin mode (Template.setup pin name mode))) pin name
          mode).render.toList
      = (nameTokens? mode name).map fun ts =>
        (([symbol '(', word "function", symbol '(', symbol ')'] ++ guardFront mode).flatMap
            (Pat.tokens (wordDigits pin) ts)
          ++ (readingRest mode).flatMap (Pat.tokens (wordDigits pin) ts), .gap) := by
  have hopen : Lexer.run .gap "(function() ".toList
      = some (fixed [symbol '(', word "function", symbol '(', symbol ')'], .gap) := by decide
  have hreturn : Lexer.run .gap "return ".toList = some (fixed [word "return"], .gap) := by decide
  have hclose : Lexer.run .gap " end)()".toList
      = some (fixed (word "end" :: symbol ')' :: arguments []), .gap) := by decide
  have hback := Lexer.run_append_of_eq (Lexer.run_append_of_eq hreturn (run_operation pin hname))
    hclose
  rw [toList_readPin, List.append_assoc, List.append_assoc, ← List.append_assoc "return ".toList,
    Lexer.run_append, Lexer.run_append, hopen, Option.bind_some, run_guard pin hname]
  cases hts : nameTokens? mode name with
  | none => rfl
  | some ts =>
    -- The name stands in the use of a digital pin only.
    have huse : (word (tableOf mode) :: Phrase.use mode).flatMap
        (Pat.tokens (wordDigits pin) [.word name.toList])
        = (word (tableOf mode) :: Phrase.use mode).flatMap (Pat.tokens (wordDigits pin) ts) := by
      rcases hmode with rfl | rfl
      · cases hts
        rfl
      · rfl
    simp only [Option.map_some, Option.bind_some, hback, huse]
    simp only [guard_eq_append, readingRest, List.flatMap_append, List.append_assoc]
    rfl

/-- In a reading the name is refused if it is refused in the guard. Its use asks no more of it. -/
theorem accepts_readingRest (hmode : mode = .input ∨ mode = .analog) (ts : List Token) :
    (readingRest mode).all (Pat.accepts ts) = takesName mode ts := by
  have hback : ([word "return"] ++ (word (tableOf mode) :: Phrase.use mode)
      ++ (word "end" :: symbol ')' :: arguments [])).all (Pat.accepts ts)
      = takesHandle mode ts := by
    rcases hmode with rfl | rfl
    · exact Bool.and_true _
    · rfl
  rw [readingRest, List.append_assoc, List.append_assoc, List.all_append, accepts_guardRest,
    ← List.append_assoc, hback]
  rcases hmode with rfl | rfl
  · exact Bool.and_self _
  · exact Bool.and_true _

/-- A reading has the sign of the guard and that of the use. -/
theorem effect_reading (hmode : mode = .input ∨ mode = .analog)
    (hts : nameTokens? mode name = some ts) (pin : Pin) :
    Phrase.effect ⟨.reading mode, [], [.numeral (wordDigits pin)]
        ++ (readingRest mode).flatMap (Pat.kept (wordDigits pin) ts), []⟩ .bracket .paren
      = some ⟨[.guard (wordText pin) mode, .use mode (handleOf mode pin name)], false, [],
      .settled⟩ := by
  have hall : ∀ n, (List.replicate n (wordDigits pin)).all (· == wordDigits pin) = true := by simp
  -- The pin is named several times over, and by the same number each time.
  have hpin : Phrase.pin? ⟨.reading mode, [], [.numeral (wordDigits pin)]
      ++ (readingRest mode).flatMap (Pat.kept (wordDigits pin) ts), []⟩
        = some (wordText pin) := by
    rw [← ofList_wordDigits]
    rcases hmode with rfl | rfl
    · cases hts
      exact if_pos (hall 1)
    · exact if_pos (hall 3)
  have hkept : (readingRest mode).flatMap (Pat.kept (wordDigits pin) ts)
      = (guardRest mode).flatMap (Pat.kept (wordDigits pin) ts) ++ [handleToken mode pin name] := by
    rcases hmode with rfl | rfl
    · cases hts
      rfl
    · rfl
  have hhandle := handle?_use (.reading mode) ([.numeral (wordDigits pin)]
    ++ (guardRest mode).flatMap (Pat.kept (wordDigits pin) ts)) mode pin name
  rw [List.append_assoc, ← hkept] at hhandle
  simp only [Phrase.effect, and_self, if_true, hpin, hhandle, Option.bind_some, Option.map_some]

/-- A guarded reading puts its pin into the mode and uses it. -/
theorem isValue_readPin (hname : Admits mode name) (hP : P → isReadable mode name = true)
    (hmode : mode = .input ∨ mode = .analog) (pin : Pin) :
    IsValue P (Template.readPin (some (.guard pin mode (Template.setup pin name mode))) pin name
        mode).render.toList
      [.guard (wordText pin) mode, .use mode (handleOf mode pin name)] := by
  intro top below prior hprior
  have hlex := run_readPin hname hmode pin
  rw [isReadable_eq hname] at hP
  cases hts : nameTokens? mode name with
  | none =>
    rw [hts] at hlex hP
    exact .inr ⟨by rw [Spot.follow, hlex]; rfl, fun h => Bool.false_ne_true (hP h)⟩
  | some ts =>
    rw [hts] at hlex hP
    have hfront : Reader.run ⟨[.around false], .operand, []⟩
        (([symbol '(', word "function", symbol '(', symbol ')'] ++ guardFront mode).flatMap
            (Pat.tokens (wordDigits pin) ts))
          = some ([], ⟨[.paren] ++ [.around false], .bracket,
            [⟨.reading mode, readingRest mode, [.numeral (wordDigits pin)], []⟩]⟩) := by
      rcases hmode with rfl | rfl <;> rfl
    -- The first tokens are read in one place by evaluation, and so at every place where a value may
    -- begin.
    have hlike : Reader.Like top below false ⟨[.around false], .operand, []⟩
        ⟨top :: below, prior, []⟩ := ⟨⟨[], rfl, rfl⟩, rfl, .inr ⟨rfl, hprior⟩⟩
    have hplace := Reader.run_front hlike (fun h => by cases h) hfront (by decide)
    have hword : Pat.name ∈ readingRest mode → ∃ letters, ts = [.word letters] := by
      intro h
      rcases hmode with rfl | rfl
      · exact ⟨_, exists_word_of_nameTokens? (by decide) hts⟩
      · exact absurd h (by decide)
    have hnonempty : readingRest mode ≠ [] := by
      rcases hmode with rfl | rfl <;> exact List.cons_ne_nil _ _
    have hfollow := Spot.follow_phrase hlex (not_bracket_of_nameTokens? hname hts) hword
      hnonempty hplace
    rw [accepts_readingRest hmode] at hfollow
    cases hreadable : takesName mode ts with
    | false =>
      rw [hreadable] at hfollow
      exact .inr ⟨hfollow, fun h => Bool.false_ne_true (hreadable ▸ hP h)⟩
    | true =>
      rw [hreadable, if_pos rfl, effect_reading hmode hts] at hfollow
      exact .inl ⟨_, [], _, hfollow, rfl, rfl⟩

end Readings

end BlockLink.Lua
