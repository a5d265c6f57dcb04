import BlockLink.Proofs.Compile.Source
import BlockLink.Proofs.Lua.Structure

/-!
# `BlockLink/Proofs/Lua/Pause.lean` — where the call that yields can stand in a text

A text put together from parts can hold a call that none of the parts holds, so "the call stands
nowhere" is not a property that goes over to the whole. `watch` reads a text and counts how much of
the call it has just read. A text is *calm* if the call is never complete in it, and *clear* if
moreover nothing of the call is pending at its end; clear texts can be put together.

Texts that were typed in are only calm. In a layout each of them stands in a Lua string, or has a
character behind it that breaks off the call. `Layout.Silent` are the layouts of which this is so,
and `Layout.silent_block` says that without yield points every layout is one of them.
-/

set_option autoImplicit false

namespace BlockLink

open BlockLink.Text

/-- The text stands somewhere in the other. -/
def Within (part whole : String) : Prop :=
  ∃ front back, whole = front ++ part ++ back

namespace Within

theorem refl (s : String) : Within s s :=
  ⟨"", "", by simp⟩

theorem trans {a b c : String} (hab : Within a b) (hbc : Within b c) : Within a c := by
  obtain ⟨front, back, rfl⟩ := hab
  obtain ⟨front', back', rfl⟩ := hbc
  exact ⟨front' ++ front, back ++ back', by simp [String.append_assoc]⟩

theorem append_left {a b : String} (h : Within a b) (front : String) : Within a (front ++ b) :=
  h.trans ⟨front, "", by simp⟩

theorem append_right {a b : String} (h : Within a b) (back : String) : Within a (b ++ back) :=
  h.trans ⟨"", back, by simp⟩

theorem iff_isInfix {a b : String} : Within a b ↔ a.toList <:+: b.toList := by
  constructor
  · rintro ⟨front, back, rfl⟩
    exact ⟨front.toList, back.toList, by simp⟩
  · rintro ⟨front, back, h⟩
    exact ⟨String.ofList front, String.ofList back, String.toList_injective (by simp [← h])⟩

end Within

namespace Lua

/-! ## Watching for the call

The state is how much of the call was just read. A character either goes on with it, starts it anew
or breaks it off, and because the first character of the call stands in it only once, no other place
has to be kept in mind. -/

/-- The call that lets the other scripts run. -/
def pauseCall : List Char :=
  ['c', '.', 'y', 'i', 'e', 'l', 'd', '(', ')']

/-- How much of the call has been read after one more character. There is no answer once it is
complete. The first character of the call is nowhere else in it, so a mismatch leaves one character
or none. -/
def watchStep (n : Nat) (c : Char) : Option Nat :=
  if pauseCall[n]? = some c then if n + 1 = pauseCall.length then none else some (n + 1)
  else if c = 'c' then some 1 else some 0

/-- How much of the call has been read after a text. -/
def watch : Nat → List Char → Option Nat
  | n, [] => some n
  | n, c :: cs => (watchStep n c).bind fun m => watch m cs

theorem watch_append (n : Nat) (xs ys : List Char) :
    watch n (xs ++ ys) = (watch n xs).bind fun m => watch m ys := by
  induction xs generalizing n with
  | nil => rfl
  | cons c xs ih =>
    rw [List.cons_append, watch, watch]
    cases watchStep n c with
    | none => rfl
    | some m => exact ih m

/-- Wherever the call starts, its first character is the first that is read of it. -/
theorem watchStep_first (n : Nat) : watchStep n 'c' = some 1 := by
  unfold watchStep
  cases n with
  | zero => rfl
  | succ n =>
    have hlater : pauseCall[n + 1]? ≠ some 'c' := fun h =>
      absurd (List.mem_of_getElem? (l := pauseCall.tail) h) (by decide)
    rw [if_neg hlater, if_pos rfl]

/-- If the call gets complete, what was read of it before stands in front of the text. -/
theorem isInfix_of_watch {n : Nat} {cs : List Char} (h : watch n cs = none) :
    pauseCall <:+: pauseCall.take n ++ cs := by
  induction cs generalizing n with
  | nil => cases h
  | cons c cs ih =>
    rw [watch] at h
    unfold watchStep at h
    split at h
    · rename_i hmatch
      have htake : pauseCall.take (n + 1) = pauseCall.take n ++ [c] := by
        rw [List.take_add_one, hmatch]
        rfl
      rw [← List.singleton_append, ← List.append_assoc, ← htake]
      split at h
      · rename_i hlast
        rw [hlast, List.take_length]
        exact (List.prefix_append _ _).isInfix
      · exact ih h
    · -- A mismatch gives up what was read, and the call gets complete further on.
      split at h
      · rename_i hfirst
        subst hfirst
        exact (ih (n := 1) h).trans (List.suffix_append _ _).isInfix
      · exact (ih (n := 0) h).trans ⟨pauseCall.take n ++ [c], [], by simp⟩

/-- The call is found exactly if it stands in the text: watching never loses a beginning of it. -/
theorem watch_eq_none_iff {cs : List Char} : watch 0 cs = none ↔ pauseCall <:+: cs := by
  constructor
  · exact isInfix_of_watch
  · rintro ⟨front, back, rfl⟩
    rw [List.append_assoc, watch_append]
    cases watch 0 front with
    | none => rfl
    | some n =>
      -- Whatever was read in front of it, the call starts anew with its first character.
      show (watchStep n 'c').bind (fun m => watch m (pauseCall.tail ++ back)) = none
      rw [watchStep_first]
      rfl

/-- The call does not stand in the text. -/
def Calm (s : String) : Prop :=
  watch 0 s.toList ≠ none

/-- The call does not stand in the text, and the text does not end within it. -/
def Clear (s : String) : Prop :=
  watch 0 s.toList = some 0

theorem calm_iff {s : String} : Calm s ↔ ¬ Within "c.yield()" s := by
  unfold Calm
  rw [ne_eq, watch_eq_none_iff, Within.iff_isInfix]
  rfl

theorem Clear.calm {s : String} (h : Clear s) : Calm s := by
  unfold Calm
  rw [show watch 0 s.toList = some 0 from h]
  simp

theorem Clear.empty : Clear "" := rfl

/-- Nothing is pending between the two, so no call is put together from both. -/
theorem Clear.append {a b : String} (ha : Clear a) (hb : Clear b) : Clear (a ++ b) := by
  unfold Clear at ha hb ⊢
  rw [String.toList_append, watch_append, ha]
  exact hb

/-- A literal unifies with the list of its characters. -/
theorem Clear.text {cs : List Char} (h : watch 0 cs = some 0) : Clear (String.ofList cs) := by
  unfold Clear
  rw [String.toList_ofList, h]

/-! ## Characters that break off the call -/

theorem watchStep_of_not_mem {c : Char} (h : c ∉ pauseCall) (n : Nat) : watchStep n c = some 0 := by
  have hmatch : pauseCall[n]? ≠ some c := fun hc => h (List.mem_of_getElem? hc)
  have hfirst : c ≠ 'c' := by
    rintro rfl
    exact h (by decide)
  rw [watchStep, if_neg hmatch, if_neg hfirst]

theorem watchStep_zero {c : Char} (h : c ≠ 'c') : watchStep 0 c = some 0 := by
  have hmatch : pauseCall[0]? ≠ some c := fun hc => h (Option.some.inj hc).symm
  rw [watchStep, if_neg hmatch, if_neg h]

/-- Text without the first character of the call is clear. -/
theorem watch_of_forall_ne {cs : List Char} (h : ∀ c ∈ cs, c ≠ 'c') : watch 0 cs = some 0 := by
  induction cs with
  | nil => rfl
  | cons c cs ih =>
    rw [watch, watchStep_zero (h c List.mem_cons_self)]
    exact ih fun d hd => h d (List.mem_cons_of_mem _ hd)

theorem ne_of_isDigit {c : Char} (h : c.isDigit = true) : c ≠ 'c' := by
  rintro rfl
  exact absurd h (by decide)

/-- The closing bracket completes the call or breaks it off. -/
theorem watchStep_close_eq (n : Nat) : watchStep n ')' = none ∨ watchStep n ')' = some 0 := by
  unfold watchStep
  split
  · rename_i hmatch
    have hlast : n + 1 = pauseCall.length := by
      have hn : n < pauseCall.length := (List.getElem?_eq_some_iff.1 hmatch).1
      have hearlier : ∀ i < 8, pauseCall[i]? ≠ some ')' := by decide
      have hlength : pauseCall.length = 9 := rfl
      have hnot : ¬ n < 8 := fun hlt => hearlier n hlt hmatch
      omega
    exact .inl (if_pos hlast)
  · exact .inr (if_neg (by decide))

/-- Text without the bracket is not yet at the end of the call. -/
theorem exists_watch_lt {cs : List Char} (h : ∀ c ∈ cs, c ≠ '(') {n : Nat} (hn : n < 8) :
    ∃ m < 8, watch n cs = some m := by
  induction cs generalizing n with
  | nil => exact ⟨n, hn, rfl⟩
  | cons c cs ih =>
    have hstep : ∃ m < 8, watchStep n c = some m := by
      unfold watchStep
      split
      · rename_i hmatch
        -- The one step beyond seven takes the bracket.
        have hbracket : n ≠ 7 := by
          rintro rfl
          exact h c List.mem_cons_self (Option.some.inj hmatch).symm
        have hlength : pauseCall.length = 9 := rfl
        exact ⟨n + 1, by omega, if_neg (by omega)⟩
      · split
        · exact ⟨1, by omega, rfl⟩
        · exact ⟨0, by omega, rfl⟩
    obtain ⟨m, hm, hstep⟩ := hstep
    rw [watch, hstep]
    exact ih (fun d hd => h d (List.mem_cons_of_mem _ hd)) hm

/-- The closing bracket only belongs to the call behind the opening one. -/
theorem watchStep_close {n : Nat} (hn : n < 8) : watchStep n ')' = some 0 := by
  have hmatch : pauseCall[n]? ≠ some ')' := fun h =>
    absurd (List.mem_of_getElem? (l := pauseCall.take 8) (by rwa [List.getElem?_take_of_lt hn]))
      (by decide)
  rw [watchStep, if_neg hmatch, if_neg (by decide)]

/-! ## Strings and numbers -/

theorem watch_threeDigits (k : Nat) : watch 0 (threeDigits k) = some 0 := by
  refine watch_of_forall_ne fun c hc => ne_of_isDigit ?_
  simp only [threeDigits, List.mem_cons, List.not_mem_nil, or_false] at hc
  rcases hc with rfl | rfl | rfl <;> exact isDigit_digitChar (Nat.mod_lt _ (by decide))

/-- An escape breaks off the call just as the character does that it stands for. -/
theorem watch_quoteChar (n : Nat) (c : Char) : watch n (quoteChar c) = watchStep n c := by
  -- A backslash breaks off the call, so an escape is watched from its second character.
  have hslash : ∀ cs, watch n ('\\' :: cs) = watch 0 cs := fun cs => by
    rw [watch, watchStep_of_not_mem (by decide), Option.bind_some]
  unfold quoteChar
  split
  · rename_i hc
    rw [hslash, hc, watchStep_of_not_mem (by decide)]
    rfl
  split
  · rename_i hc
    rw [hslash, hc, watchStep_of_not_mem (by decide)]
    rfl
  split
  · rename_i hc
    rw [hslash, hc, watchStep_of_not_mem (by decide)]
    rfl
  split
  · rename_i hc
    rw [hslash, hc, watchStep_of_not_mem (by decide)]
    rfl
  split
  -- A control character is written in digits, and neither it nor they are in the call.
  · rename_i hcontrol
    have hprinted : pauseCall.all (fun d => !isControl d) = true := by decide
    have hother : c ∉ pauseCall := fun hmem => by
      simpa [hcontrol] using List.all_eq_true.1 hprinted c hmem
    rw [hslash, watchStep_of_not_mem hother]
    exact watch_threeDigits c.toNat
  · rw [watch]
    cases watchStep n c <;> rfl

theorem watch_quoteBody (n : Nat) (cs : List Char) : watch n (quoteBody cs) = watch n cs := by
  induction cs generalizing n with
  | nil => rfl
  | cons c cs ih =>
    have hcons : quoteBody (c :: cs) = quoteChar c ++ quoteBody cs := rfl
    rw [hcons, watch_append, watch_quoteChar, watch]
    exact congrArg _ (funext fun m => ih m)

/-- The quote at the end breaks off whatever is pending, so a calm text in quotes is clear. -/
theorem Calm.clear_quote {s : String} (h : Calm s) : Clear (quote s) := by
  obtain ⟨n, hn⟩ := Option.ne_none_iff_exists'.1 h
  unfold Clear quote
  rw [String.toList_ofList, List.cons_append, watch, watchStep_of_not_mem (by decide),
    Option.bind_some,
    watch_append, watch_quoteBody, hn, Option.bind_some, watch, watchStep_of_not_mem (by decide)]
  rfl

theorem clear_repr (n : Nat) : Clear (Nat.repr n) := by
  refine watch_of_forall_ne fun c hc => ne_of_isDigit ?_
  rw [Nat.toList_repr] at hc
  exact Nat.isDigit_of_mem_toDigits (by decide) (by decide) hc

theorem ne_of_isNumeralChar {c : Char} (h : isNumeralChar c = true) : c ≠ 'c' := by
  rintro rfl
  exact absurd h (by decide)

/-- Numbers are made of characters that are not the first of the call. -/
theorem clear_number (x : Number) : Clear x.text := by
  refine watch_of_forall_ne fun c hc => ?_
  unfold Number.text at hc
  rw [String.toList_ofList] at hc
  unfold Number.textChars at hc
  split at hc
  · rw [List.mem_singleton.1 hc]
    decide
  · obtain ⟨a, b, hlayout, ha, hb⟩ := exists_layout_eq x.magnitude.shortest.1 x.magnitude.shortest.2
    dsimp only at hc
    rw [hlayout] at hc
    rcases List.mem_append.1 hc with hc | hc
    · split at hc
      · rw [List.mem_singleton.1 hc]
        decide
      · cases hc
    rcases List.mem_append.1 hc with hc | hc
    · exact ne_of_isNumeralChar (ha.2 c hc)
    rcases hb with rfl | ⟨power, rfl, hpower⟩
    · cases hc
    rcases List.mem_cons.1 hc with rfl | hc
    · decide
    · exact ne_of_isNumeralChar (hpower.2 c hc)

/-- A text that was typed in is a number or stands in quotes. -/
theorem clear_lua {s : String} (h : Calm s) : Clear (Literal.classify s).lua := by
  unfold Literal.classify
  split
  · exact .text (by decide)
  split
  · exact .text (by decide)
  split
  · exact clear_number _
  · exact h.clear_quote

/-- Where a number is expected, other texts are quoted inside a conversion. -/
theorem clear_luaNumber {s : String} (h : Calm s) : Clear (Literal.classify s).luaNumber := by
  have hlua := clear_lua h
  generalize Literal.classify s = l at hlua ⊢
  cases l with
  | number | bool => exact hlua
  | text t =>
    have hnumber : (Literal.text t).luaNumber = if isAllBlank t then "0" else quote t := rfl
    rw [hnumber]
    split
    · exact .text (by decide)
    · exact hlua

theorem Calm.clear_variableText {s : String} (h : Calm s) : Clear (variableText s) :=
  (Clear.append (.text (by decide)) h.clear_quote).append (.text (by decide))

/-- A text in which the call does not stand even with a closing bracket behind it. -/
theorem Calm.watch_of_close {s : String} (h : Calm (s ++ ")")) :
    ∃ n, watch 0 s.toList = some n ∧ watchStep n ')' = some 0 := by
  have hcalm : watch 0 (s.toList ++ [')']) ≠ none := by
    have hlist : (s ++ ")").toList = s.toList ++ [')'] := String.toList_append
    rw [← hlist]
    exact h
  rw [watch_append] at hcalm
  cases hwatch : watch 0 s.toList with
  | none => exact absurd (by rw [hwatch]; rfl) hcalm
  | some n =>
    refine ⟨n, rfl, (watchStep_close_eq n).resolve_left fun hnone => hcalm ?_⟩
    rw [hwatch, Option.bind_some, watch, hnone]
    rfl

/-- Without an opening bracket in the name, the one behind it completes nothing. -/
theorem calm_close_of_forall_ne {s : String} (h : ∀ c ∈ s.toList, c ≠ '(') : Calm (s ++ ")") := by
  obtain ⟨n, hn, hwatch⟩ := exists_watch_lt h (n := 0) (by decide)
  have hlist : (s ++ ")").toList = s.toList ++ [')'] := String.toList_append
  unfold Calm
  rw [hlist, watch_append, hwatch, Option.bind_some, watch, watchStep_close hn]
  exact Option.some_ne_none 0

/-- A text between two that break off the call. -/
theorem Calm.between {s : String} (h : Calm s) (front : List Char) (hfront : watch 0 front = some 0)
    (c : Char) (hc : c ∉ pauseCall) (back : List Char) (hback : watch 0 back = some 0) :
    Clear (String.ofList front ++ s ++ String.ofList (c :: back)) := by
  obtain ⟨n, hn⟩ := Option.ne_none_iff_exists'.1 h
  unfold Clear
  rw [String.toList_append, String.toList_append, String.toList_ofList,
    String.toList_ofList, watch_append,
    watch_append, hfront, Option.bind_some, hn, Option.bind_some, watch, watchStep_of_not_mem hc]
  exact hback

end Lua

open Lua

theorem UnitRef.calm_text (unit : UnitRef) : Calm unit.text := by
  cases unit with
  | id n => exact (clear_repr n.toNat).calm
  | adhoc => exact Clear.calm (.text (by decide))

/-! ## Operands -/

/-- What was typed into the operand is calm, and its code is clear. -/
def Operand.Calm : Operand → Prop
  | .literal s | .name s => Lua.Calm s
  | .expression c | .script c => Clear c.render

namespace Operand

variable {x : Operand} {s : String}

theorem Calm.blank (h : x.Calm) : x.blank.Calm := by
  cases x with
  | literal | name => exact h
  | expression | script => exact Clear.empty

/-- In each of the ways in which an operand can be taken, what is written for it is clear. -/
theorem Calm.value? (h : x.Calm) (hs : x.value? = some s) : Clear s := by
  cases x with
  | literal t =>
    cases hs
    exact clear_lua h
  | name t =>
    cases hs
    exact Lua.Calm.clear_variableText h
  | expression c =>
    cases hs
    exact h
  | script c => cases hs

theorem Calm.number? (h : x.Calm) (hs : x.number? = some s) : Clear s := by
  cases x with
  | literal t =>
    cases hs
    exact clear_luaNumber h
  | name | expression | script => exact h.value? hs

theorem Calm.string? (h : x.Calm) (hs : x.string? = some s) : Clear s := by
  have hcall : x.value?.map ("_s(" ++ · ++ ")") = some s → Clear s := by
    intro hs
    obtain ⟨v, hv, rfl⟩ := Option.map_eq_some_iff.1 hs
    exact (Clear.append (.text (by decide)) (h.value? hv)).append (.text (by decide))
  cases x with
  | literal t =>
    cases hs
    exact Lua.Calm.clear_quote h
  | name | expression | script => exact hcall hs

theorem Calm.script? (h : x.Calm) (hs : x.script? = some s) : Clear s := by
  cases x with
  | literal t =>
    replace hs : (if t = "" then some "" else none) = some s := hs
    split at hs
    · cases hs
      exact Clear.empty
    · cases hs
  | name | expression => cases hs
  | script c =>
    cases hs
    exact h

end Operand

/-! ## Layouts

Layout by layout, what stands around each operand. -/

namespace Layout

/-- The layout is clear if its operands are: behind what is not in a string stands a character that
breaks off the call. -/
inductive Silent : List Piece → Prop
  | nil : Silent []
  | text {cs : List Char} {ps : List Piece} (h : watch 0 cs = some 0) (hps : Silent ps) :
      Silent (.text (String.ofList cs) :: ps)
  | quoted {s : String} {ps : List Piece} (h : Calm s) (hps : Silent ps) : Silent (.quoted s :: ps)
  | numeral {n : Nat} {ps : List Piece} (hps : Silent ps) : Silent (.numeral n :: ps)
  | pinName {name : String} {c : Char} {cs : List Char} {ps : List Piece}
      (hname : Calm (name ++ ")")) (hc : c = ')' ∨ c = ',') (h : watch 0 cs = some 0)
      (hps : Silent ps) : Silent (.pinName name :: .text (String.ofList (c :: cs)) :: ps)
  | typed {code : String} {ps : List Piece} (h : Calm code) (hps : Silent ps) :
      Silent (.typed code :: .text " " :: ps)
  | operand {p : Piece} {ps : List Piece} (h : p.place?.isSome = true) (hps : Silent ps) :
      Silent (p :: ps)

theorem Silent.append {ps qs : List Piece} (hps : Silent ps) (hqs : Silent qs) :
    Silent (ps ++ qs) := by
  induction hps with
  | nil => exact hqs
  | text h _ ih => exact .text h ih
  | quoted h _ ih => exact .quoted h ih
  | numeral _ ih => exact .numeral ih
  | pinName hname hc h _ ih => exact .pinName hname hc h ih
  | typed h _ ih => exact .typed h ih
  | operand h _ ih => exact .operand h ih

theorem Silent.clear {s : String} (h : Clear s) {ps : List Piece} (hps : Silent ps) :
    Silent (.text s :: ps) := by
  rw [← String.ofList_toList (s := s)]
  exact .text h hps

end Layout

namespace Operands

variable {ops : Operands}

/-- What is written for an operand in any of the four ways is clear. -/
theorem clear_written? (hops : ∀ x ∈ ops.items, x.Calm) {p : Piece} (hp : p.place?.isSome = true)
    {s : String} (h : ops.written? p = some s) : Clear s := by
  have hread : ∀ (i : Nat) (read : Operand → Option String),
      (∀ x : Operand, x.Calm → read x = some s → Clear s) →
      ops.items[i]?.bind read = some s → Clear s := by
    intro i read hclear h
    obtain ⟨x, hx, hs⟩ := Option.bind_eq_some_iff.1 h
    exact hclear x (hops x (List.mem_of_getElem? hx)) hs
  cases p with
  | value i => exact hread i _ (fun _ => Operand.Calm.value?) h
  | number i => exact hread i _ (fun _ => Operand.Calm.number?) h
  | string i => exact hread i _ (fun _ => Operand.Calm.string?) h
  | script i => exact hread i _ (fun _ => Operand.Calm.script?) h
  | text | quoted | numeral | pinName | typed => cases hp

/-- A silent layout is filled to a clear text. -/
theorem clear_fill (hops : ∀ x ∈ ops.items, x.Calm) {ps : List Piece} (hps : Layout.Silent ps)
    {s : String} (h : ops.fill ps = some s) : Clear s := by
  induction hps generalizing s with
  | nil =>
    cases h
    exact Clear.empty
  | text hclear _ ih =>
    obtain ⟨rest, hrest, rfl⟩ := Option.map_eq_some_iff.1 h
    exact (Clear.text hclear).append (ih hrest)
  | quoted hcalm _ ih =>
    obtain ⟨rest, hrest, rfl⟩ := Option.map_eq_some_iff.1 h
    exact hcalm.clear_quote.append (ih hrest)
  | numeral _ ih =>
    obtain ⟨rest, hrest, rfl⟩ := Option.map_eq_some_iff.1 h
    exact (clear_repr _).append (ih hrest)
  | @pinName name c cs ps hname hc hclear _ ih =>
    rw [fill_pinName, fill_text, Option.map_map] at h
    obtain ⟨rest, hrest, rfl⟩ := Option.map_eq_some_iff.1 h
    -- A bracket does not complete the call that the name may have begun, and a comma breaks it off.
    obtain ⟨n, hwatch, hclose⟩ := hname.watch_of_close
    have hbreak : watchStep n c = some 0 := by
      rcases hc with rfl | rfl
      · exact hclose
      · exact watchStep_of_not_mem (by decide) n
    have hfront : Clear (name ++ String.ofList (c :: cs)) := by
      unfold Clear
      rw [String.toList_append, watch_append, hwatch, String.toList_ofList,
        Option.bind_some, watch, hbreak]
      exact hclear
    have hwhole := hfront.append (ih hrest)
    rw [String.append_assoc] at hwhole
    exact hwhole
  | typed hcalm _ ih =>
    rw [fill_typed, fill_text, Option.map_map] at h
    obtain ⟨rest, hrest, rfl⟩ := Option.map_eq_some_iff.1 h
    have hfront := hcalm.between [] rfl ' ' (by decide) [] rfl
    have hwhole := hfront.append (ih hrest)
    simpa [String.append_assoc] using hwhole
  | operand hplace _ ih =>
    rw [fill] at h
    obtain ⟨front, hfront, h⟩ := Option.bind_eq_some_iff.1 h
    obtain ⟨rest, hrest, rfl⟩ := Option.map_eq_some_iff.1 h
    exact (clear_written? hops hplace hfront).append (ih hrest)

end Operands

namespace Layout

theorem silent_join {cs : List Char} (h : watch 0 cs = some 0) {ps : List Piece}
    (hps : ∀ p ∈ ps, p.place?.isSome = true) : Silent (join (String.ofList cs) ps) := by
  induction ps with
  | nil => exact .nil
  | cons p ps ih =>
    cases ps with
    | nil => exact .operand (hps p List.mem_cons_self) .nil
    | cons q ps =>
      exact .operand (hps p List.mem_cons_self)
        (.text h (ih fun r hr => hps r (List.mem_cons_of_mem _ hr)))

theorem silent_call {cs : List Char} (h : watch 0 cs = some 0) {args : List Piece}
    (hargs : ∀ p ∈ args, p.place?.isSome = true) : Silent (call (String.ofList cs) args) :=
  .text h (.text (by decide) ((silent_join (by decide) hargs).append (.text (by decide) .nil)))

theorem silent_binary {cs : List Char} (h : watch 0 cs = some 0) {a b : Piece}
    (ha : a.place?.isSome = true) (hb : b.place?.isSome = true) :
    Silent (binary a (String.ofList cs) b) :=
  .text (by decide) (.operand ha (.text (by decide) (.text h (.text (by decide)
    (.operand hb (.text (by decide) .nil))))))

theorem silent_whileLoop {condition body : List Piece} (hcondition : Silent condition)
    (hbody : Silent body) :
    Silent (whileLoop condition body) :=
  .text (by decide) (hcondition.append (.text (by decide) (hbody.append (.text (by decide) .nil))))

theorem silent_function {body : List Piece} (h : Silent body) : Silent (function body) :=
  .text (by decide) (.text (by decide) (.text (by decide) (.text (by decide)
    (h.append (.text (by decide) (.text (by decide) .nil))))))

theorem silent_runNow {body : List Piece} (h : Silent body) : Silent (runNow body) :=
  .text (by decide) (h.append (.text (by decide) .nil))

theorem silent_global {name : String} (h : Calm name) : Silent (global name) :=
  .text (by decide) (.quoted h (.text (by decide) .nil))

theorem silent_reportVariable {name : String} (h : Calm name) : Silent (reportVariable name) := by
  have htag : Calm ("vv:" ++ name ++ ":") :=
    (h.between ['v', 'v', ':'] (by decide) ':' (by decide) [] rfl).calm
  exact .text (by decide) (.quoted htag (.text (by decide) ((silent_global h).append
    (.text (by decide) .nil))))

theorem calm_unitTag {tag : List Char} (h : watch 0 (tag ++ [':']) = some 0) (unit : UnitRef) :
    Calm (String.ofList tag ++ ":" ++ unit.text ++ ":") := by
  have hwhole := (unit.calm_text.between _ h ':' (by decide) [] rfl).calm
  rw [String.ofList_append] at hwhole
  exact hwhole

theorem isSome_place?_of_mem_map {piece : Nat → Piece} (h : ∀ i, (piece i).place?.isSome = true)
    {is : List Nat} : ∀ p ∈ is.map piece, p.place?.isSome = true := by
  intro p hp
  obtain ⟨i, -, rfl⟩ := List.mem_map.1 hp
  exact h i

variable {shapes : List Operand}

theorem calm_of_name? (hshapes : ∀ x ∈ shapes, x.Calm) {name : String}
    (h : name? shapes = some name) : Calm name := by
  cases shapes with
  | nil => cases h
  | cons x shapes =>
    have hx := hshapes x List.mem_cons_self
    cases x with
    | literal s | name s =>
      cases h
      exact hx
    | expression | script => cases h

/-- Every function of the menu is written with clear texts around its operand. -/
theorem silent_monadic {ps : List Piece} (h : monadic shapes = some ps) : Silent ps := by
  have hmenu : ∀ {f : String} {menu : String × String}, Template.monadic? f = some menu →
      Clear menu.1 ∧ Clear menu.2 := by
    intro f menu hf
    obtain ⟨earlier, later, htable, -⟩ := List.lookup_eq_some_iff.1 hf
    have hmem : (f, menu) ∈ earlier ++ (f, menu) :: later := by simp
    rw [← htable] at hmem
    simp only [List.mem_cons, Prod.mk.injEq, List.not_mem_nil, or_false] at hmem
    rcases hmem with ⟨-, rfl⟩ | ⟨-, rfl⟩ | ⟨-, rfl⟩ | ⟨-, rfl⟩ | ⟨-, rfl⟩ | ⟨-, rfl⟩ | ⟨-, rfl⟩ |
      ⟨-, rfl⟩ | ⟨-, rfl⟩ | ⟨-, rfl⟩ | ⟨-, rfl⟩ | ⟨-, rfl⟩ | ⟨-, rfl⟩ | ⟨-, rfl⟩
    all_goals exact ⟨.text (by decide), .text (by decide)⟩
  cases shapes with
  | nil => cases h
  | cons x shapes =>
    cases x with
    | literal s =>
      obtain ⟨menu, hf, rfl⟩ := Option.map_eq_some_iff.1 h
      obtain ⟨hfront, hback⟩ := hmenu hf
      exact .text (by decide) (.clear hfront (.operand rfl (.clear hback (.text (by decide) .nil))))
    | name | expression | script => cases h

/-- The layouts that depend on the operands alone. For each selector the texts of its layout are
checked by evaluation, and its operands stand where the context allows them. -/
theorem silent_plain (hshapes : ∀ x ∈ shapes, x.Calm) (unit : UnitRef) {selector : Selector}
    {ps : List Piece} (h : plain ⟨unit, false⟩ selector shapes = some ps) : Silent ps := by
  -- Ten of the layouts are two operands with an operator between them.
  have hbinary : ∀ {cs : List Char} {a b : Piece}, watch 0 cs = some 0 → a.place?.isSome = true →
      b.place?.isSome = true → some (binary a (String.ofList cs) b) = some ps → Silent ps := by
    rintro cs a b hcs ha hb h
    cases h
    exact silent_binary hcs ha hb
  cases selector with
  | doWait =>
    cases h
    exact .text (by decide) (.operand rfl (.text (by decide) .nil))
  | doWaitUntil =>
    cases h
    exact (silent_whileLoop (.text (by decide) (.operand rfl .nil)) (.text (by decide) .nil)).append
      (.text (by decide) .nil)
  | doForever =>
    cases h
    exact (silent_whileLoop (.text (by decide) .nil) (.text (by decide) (.operand rfl .nil))).append
      (.text (by decide) .nil)
  | doRepeat | doIf =>
    cases h
    exact .text (by decide) (.operand rfl (.text (by decide) (.text (by decide) (.operand rfl
      (.text (by decide) (.text (by decide) .nil))))))
  | doIfElse =>
    cases h
    exact .text (by decide) (.operand rfl (.text (by decide) (.text (by decide) (.operand rfl
      (.text (by decide)
        (.text (by decide) (.operand rfl (.text (by decide) (.text (by decide) .nil)))))))))
  | doStopThis | doStopAll | reportTrue | reportFalse =>
    cases h
    exact .text (by decide) .nil
  | reifyScript =>
    cases h
    exact silent_function (.text (by decide) (.operand rfl .nil))
  | reifyReporter =>
    cases h
    refine silent_function ?_
    split
    · exact .text (by decide) .nil
    · exact .text (by decide) (.operand rfl (.text (by decide) .nil))
  | doReport =>
    cases h
    exact .text (by decide) (.operand rfl (.text (by decide)
      (.quoted (calm_unitTag (by decide) unit) (.text (by decide) .nil))))
  | reportSum | reportDifference | reportProduct | reportQuotient | reportModulus | reportLessThan
  | reportEquals | reportGreaterThan | reportAnd | reportOr => exact hbinary (by decide) rfl rfl h
  | reportMonadic => exact silent_monadic h
  | reportRandom | reportListItem | reportListContainsItem | reportListLength =>
    cases h
    exact silent_call (by decide) (by simp [Piece.place?])
  | addListItem | deleteListItem | insertListItem | replaceListItem =>
    cases h
    exact (silent_call (by decide) (by simp [Piece.place?])).append (.text (by decide) .nil)
  | reportNot =>
    cases h
    exact .text (by decide) (.operand rfl (.text (by decide) .nil))
  | reportJoinWords =>
    cases h
    split
    · exact .text (by decide) .nil
    · exact .text (by decide)
        ((silent_join (by decide) (isSome_place?_of_mem_map fun _ => rfl)).append
        (.text (by decide) .nil))
  -- Names of variables stand in quotes.
  | reportGetVar =>
    obtain ⟨name, hname, rfl⟩ := Option.map_eq_some_iff.1 h
    exact silent_global (calm_of_name? hshapes hname)
  | doSetVar =>
    obtain ⟨name, hname, rfl⟩ := Option.map_eq_some_iff.1 h
    have hcalm := calm_of_name? hshapes hname
    exact (silent_global hcalm).append
      (.text (by decide) (.operand rfl (silent_reportVariable hcalm)))
  | doChangeVar =>
    obtain ⟨name, hname, rfl⟩ := Option.map_eq_some_iff.1 h
    have hcalm := calm_of_name? hshapes hname
    exact (silent_global hcalm).append (.text (by decide) ((silent_global hcalm).append
      (.text (by decide) (.operand rfl (silent_reportVariable hcalm)))))
  | reportNewList =>
    cases h
    split
    · exact .text (by decide) .nil
    · exact .text (by decide)
        ((silent_join (by decide) (isSome_place?_of_mem_map fun _ => rfl)).append
        (.text (by decide) (.numeral (.text (by decide) .nil))))
  | receiveGo | doRun | evaluate | runLua | setPinDigital | setPinAnalog | getPinDigital
  | getPinAnalog | subscribeToMqttMessage | publishMqttMessage =>
    cases h
    exact .nil

/-! ### Pins -/

section

variable {name : String} (hname : Calm (name ++ ")")) (pin : Pin) (mode : PinMode)
include hname

/-- The name of a pin is followed by a bracket wherever it is an argument. -/
theorem silent_setup : Silent (setup pin name mode) := by
  cases mode with
  | output => exact .text (by decide) (.pinName hname (.inl rfl) (by decide) .nil)
  | input => exact .text (by decide) (.pinName hname (.inl rfl) (by decide) .nil)
  | pwm =>
    exact .text (by decide) (.numeral (.text (by decide) (.pinName hname (.inr rfl) (by decide)
      (.numeral (.text (by decide) .nil)))))
  | analog =>
    exact .text (by decide)
      (.numeral (.text (by decide) (.pinName hname (.inl rfl) (by decide) .nil)))

theorem silent_guard : Silent (guard pin name mode) :=
  .text (by decide) (.numeral (.text (by decide) (.numeral (.text (by decide)
    ((silent_setup hname pin mode).append (.text (by decide) (.numeral (.text (by decide) (.numeral
      (.text (by decide) .nil))))))))))

theorem silent_operation : Silent (operation pin name mode) := by
  cases mode with
  | output => exact .text (by decide) (.pinName hname (.inl rfl) (by decide) .nil)
  | input => exact .text (by decide) (.pinName hname (.inl rfl) (by decide) .nil)
  | pwm => exact .text (by decide) (.numeral (.text (by decide) .nil))
  | analog => exact .text (by decide) (.numeral (.text (by decide) .nil))

/-- A write is its operation, behind a guard if the mode is not known. -/
theorem silent_writePin (known : Bool) {level : List Piece} (hlevel : Silent level) :
    Silent (writePin known pin name mode level) := by
  have hguard : Silent (if known then [] else guard pin name mode) := by
    split
    · exact .nil
    · exact silent_guard hname pin mode
  exact hguard.append (.text (by decide) (hlevel.append (.text (by decide)
    ((silent_operation hname pin mode).append
      (.text (by decide) (.numeral (.text (by decide) .nil)))))))

theorem silent_readPin (known : Bool) : Silent (readPin known pin name mode) := by
  unfold readPin
  split
  · exact silent_operation hname pin mode
  · exact silent_runNow (.text (by decide) ((silent_guard hname pin mode).append (.text (by decide)
      ((silent_operation hname pin mode).append (.text (by decide) .nil)))))

end

/-- The level is a digit, or what `_d` makes of a value. -/
theorem silent_level (shapes : List Operand) : Silent (level shapes) := by
  have hcall : Silent (call "_d" [.value 1]) := silent_call (by decide) (by simp [Piece.place?])
  rcases shapes with _ | ⟨_, _ | ⟨x, _⟩⟩
  · exact hcall
  · exact hcall
  · cases x with
    | literal s =>
      refine Silent.clear ?_ .nil
      split <;> exact .text (by decide)
    | name | expression | script => exact hcall

/-! ### Every block -/

/-- What the board puts into code is calm: the call stands neither in the name of a pin with a
bracket behind it nor in a text of its broker. -/
structure BoardCalm (board : Board) : Prop where
  pinName : ∀ {mode : PinMode} {text : String} {pin : Pin} {name : String},
    board.pinNamed? mode text = some (pin, name) → Calm (name ++ ")")
  broker : ∀ {broker : Broker}, board.broker = some broker →
    Calm broker.deviceId ∧ Calm broker.url ∧ Calm broker.username ∧ Calm broker.password

variable {board : Board}

/-- The name that an operand is resolved to is one of the board. -/
theorem BoardCalm.of_pin? (hboard : BoardCalm board) {mode : PinMode} {pin : Pin} {name : String}
    (h : pin? board mode shapes = some (some (pin, name))) : Calm (name ++ ")") := by
  unfold pin? at h
  split at h
  · cases h
  · cases h
  · exact hboard.pinName (Option.some.inj h)
  · cases h

theorem silent_connect (hboard : BoardCalm board) {broker : Broker}
    (h : board.broker = some broker) : Silent (connect broker) := by
  obtain ⟨hdevice, hurl, husername, hpassword⟩ := hboard.broker h
  exact .text (by decide) (.quoted hdevice (.text (by decide) (.quoted hurl (.text (by decide)
    (.numeral (.text (by decide) (.quoted husername (.text (by decide) (.quoted hpassword
      (.text (by decide) .nil))))))))))

/-- Code that was typed in has a space on either side, and code that is computed is an operand. -/
theorem silent_luaCall (hshapes : ∀ x ∈ shapes, x.Calm) : Silent (luaCall shapes) := by
  have hload : Silent (call "load" [.string 0] ++ [Piece.text "()"]) :=
    (silent_call (by decide) (by simp [Piece.place?])).append (.text (by decide) .nil)
  rcases shapes with _ | ⟨x, _⟩
  · exact hload
  · cases x with
    | literal code =>
      exact silent_runNow (.text (by decide) (.typed (hshapes _ List.mem_cons_self) .nil))
    | name | expression | script => exact hload

theorem silent_callOperand {ps : List Piece} (h : callOperand shapes = some (some ps)) :
    Silent ps := by
  rcases shapes with _ | ⟨x, args⟩
  · cases h
  · cases x with
    | expression =>
      cases h
      exact .operand rfl (.text (by decide) ((silent_join (by decide)
        (isSome_place?_of_mem_map fun _ => rfl)).append (.text (by decide) .nil)))
    | literal | name | script => cases h

/-- Without yield points the layout of every block is silent. -/
theorem silent_block (hboard : BoardCalm board) (hshapes : ∀ x ∈ shapes, x.Calm) (unit : UnitRef)
    {known : Bool} {selector : Selector} {ps : List Piece}
    (h : block board ⟨unit, false⟩ known selector shapes = some ps) : Silent ps := by
  have hplain : plain ⟨unit, false⟩ selector shapes = some ps → Silent ps :=
    silent_plain hshapes unit
  -- A reading or a write of a pin that the board does not have is `nil` or nothing.
  have hread : ∀ {mode : PinMode}, (pin? board mode shapes).map
      (fun named => named.elim [.text "nil"]
      fun named => readPin known named.1 named.2 mode) = some ps → Silent ps := by
    intro mode h
    obtain ⟨named, hnamed, rfl⟩ := Option.map_eq_some_iff.1 h
    cases named with
    | none => exact .text (by decide) .nil
    | some named => exact silent_readPin (hboard.of_pin? hnamed) named.1 mode known
  have hwrite : ∀ {mode : PinMode} {level : List Piece}, Silent level →
      (pin? board mode shapes).map (fun named => named.elim []
        fun named => writePin known named.1 named.2 mode level) = some ps → Silent ps := by
    intro mode level hlevel h
    obtain ⟨named, hnamed, rfl⟩ := Option.map_eq_some_iff.1 h
    cases named with
    | none => exact .nil
    | some named => exact silent_writePin (hboard.of_pin? hnamed) named.1 mode known hlevel
  cases selector with
  -- A call of what is no expression is left out.
  | doRun =>
    obtain ⟨call, hcall, rfl⟩ := Option.map_eq_some_iff.1 h
    cases call with
    | none => exact .nil
    | some call => exact (silent_callOperand hcall).append (.text (by decide) .nil)
  | evaluate =>
    obtain ⟨call, hcall, rfl⟩ := Option.map_eq_some_iff.1 h
    cases call with
    | none => exact .text (by decide) .nil
    | some call => exact silent_callOperand hcall
  | runLua =>
    cases h
    exact .text (by decide) ((silent_luaCall hshapes).append (.text (by decide)
      (.quoted (calm_unitTag (by decide) unit) (.text (by decide) .nil))))
  | setPinDigital => exact hwrite (silent_level shapes) h
  | setPinAnalog => exact hwrite (.operand rfl .nil) h
  | getPinDigital => exact hread h
  | getPinAnalog => exact hread h
  | publishMqttMessage =>
    cases h
    cases hbroker : board.broker with
    | none => exact .nil
    | some broker =>
      exact (silent_connect hboard hbroker).append
        (.text (by decide) (.operand rfl (.text (by decide)
        (.operand rfl (.text (by decide) .nil)))))
  | _ => exact hplain h

theorem silent_messageFilter (shapes : List Operand) : Silent (messageFilter shapes) := by
  have hequal : Silent [.text "p == ", .string 0] := .text (by decide) (.operand rfl .nil)
  rcases shapes with _ | ⟨x, _⟩
  · exact hequal
  · cases x with
    | literal s =>
      show Silent (if s = "" then [.text "true"] else [.text "p == ", .string 0])
      split
      · exact .text (by decide) .nil
      · exact hequal
    | name | expression | script => exact hequal

/-- A subscription has no yield points of its own, whatever the context says. -/
theorem silent_subscribe (hboard : BoardCalm board) {broker : Broker}
    (h : board.broker = some broker) (ctx : Context) (shapes : List Operand) :
    Silent (subscribe broker ctx shapes) :=
  (silent_connect hboard h).append (.text (by decide) (.quoted ctx.unit.calm_text (.text (by decide)
    (.operand rfl (.text (by decide) (.text (by decide) (.text (by decide) (.text (by decide)
      (.text (by decide) (.text (by decide) ((silent_messageFilter shapes).append (.text (by decide)
        (.text (by decide) (.quoted (calm_unitTag (by decide) ctx.unit)
          (.text (by decide) (.operand rfl
          (.text (by decide) (.quoted (calm_unitTag (by decide) ctx.unit) (.text (by decide)
            (.text (by decide)
              (.text (by decide) (.text (by decide) (.text (by decide) (.operand rfl
              (.text (by decide) .nil)))))))))))))))))))))))))

end Layout

end BlockLink
