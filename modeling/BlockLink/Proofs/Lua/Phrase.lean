import BlockLink.Proofs.Lua.Numeral
import BlockLink.Proofs.Lua.Reading

/-!
# `BlockLink/Proofs/Lua/Phrase.lean` — a phrase is read to its end, or not at all

The reader knows a few phrases word by word, with places in them for the number and the name of a
pin. Written out with a number and a name, such a phrase is taken token by token up to its end
exactly if the name is one that may stand at its places (`Reader.run_phrase`); if it may not,
nothing is read.

The number and the name are spliced into the text of a phrase, and here is why they stay tokens of
their own there: a number between square brackets (`Lexer.run_entry`), a name behind a dot
(`Lexer.run_field`), and a channel in front of a round bracket, which is a numeral, a path, or
something the lexer refuses (`Lexer.run_argument`).
-/

set_option autoImplicit false

namespace BlockLink.Lua

open BlockLink.Text

/-! ## Phrases as tokens -/

namespace Pat

/-- The tokens at a place of a phrase, with a number and a name where these are left open. -/
def tokens (number : List Char) (name : List Token) : Pat → List Token
  | exactly t => [t]
  | .name => name
  | numeral | port => [.numeral number]
  | string => [.string []]
  | channel => name ++ [.symbol [')']]

/-- What is kept of them. -/
def kept (number : List Char) (name : List Token) : Pat → List Token
  | .name => name
  | numeral => [.numeral number]
  | _ => []

/-- Whether they are taken. -/
def accepts (name : List Token) : Pat → Bool
  | exactly (.string _) => false
  | .name => isAccess name
  | channel => isArgument name
  | _ => true

end Pat

namespace Reader

variable {top : Level} {below : List Level} {prior : Prior}

/-- The place behind the tokens of a phrase, if it is the only one that has begun. -/
def behind (top : Level) (below : List Level) (prior : Prior) (p : Phrase) :
    Option (List Sign × Reader) :=
  if p.rest = [] then (p.effect prior top).map (after top below)
  else some ([], ⟨top :: below, prior, [p]⟩)

/-- One token, while a single phrase has begun: it goes on, is complete, or nothing is read. -/
theorem take_phrase (p : Phrase) (t : Token) :
    take ⟨top :: below, prior, [p]⟩ t = (p.take t).bind (behind top below prior) := by
  cases hp : p.take t with
  | none => simp [take, hear, hp]
  | some q =>
    by_cases hrest : q.rest = []
    · simp [take, hear, hp, behind, hrest]
    · simp [take, hear, hp, behind, hrest]

/-- At the place of a channel tokens are collected up to the bracket. -/
theorem run_channel {ts : List Token}
    (hts : ∀ t ∈ ts, t ≠ .symbol [')'] ∧ ∀ bytes, t ≠ .string bytes)
    (m : Meaning) (rest : List Pat) (kept path : List Token) :
    run ⟨top :: below, prior, [⟨m, .channel :: rest, kept, path⟩]⟩ ts
      = some ([], ⟨top :: below, prior, [⟨m, .channel :: rest, kept, path ++ ts⟩]⟩) := by
  induction ts generalizing path with
  | nil => rw [List.append_nil, run]
  | cons t ts ih =>
    rw [List.forall_mem_cons] at hts
    have htake : Phrase.take ⟨m, .channel :: rest, kept, path⟩ t
        = some ⟨m, .channel :: rest, kept, path ++ [t]⟩ := by
      cases t with
      | string bytes => exact absurd rfl (hts.1.2 bytes)
      | word letters | numeral text | stray byte => rfl
      | symbol marks => simp [Phrase.take, hts.1.1]
    rw [run, take_phrase, htake, Option.bind_some, behind, if_neg (List.cons_ne_nil _ _),
      Option.bind_some, ih hts.2, List.append_assoc]
    rfl

/-- One place of a phrase takes all of its tokens, or refuses them. -/
theorem run_pat {number : List Char} {name : List Token} {pat : Pat}
    (hname : ∀ t ∈ name, t ≠ .symbol [')'] ∧ ∀ bytes, t ≠ .string bytes)
    (hword : pat = .name → ∃ letters, name = [.word letters]) (m : Meaning) (rest : List Pat)
    (kept : List Token) :
    run ⟨top :: below, prior, [⟨m, pat :: rest, kept, []⟩]⟩ (pat.tokens number name)
      = if pat.accepts name then behind top below prior ⟨m, rest, kept ++ pat.kept number name, []⟩
        else none := by
  cases pat with
  | exactly t =>
    rw [Pat.tokens, run_singleton, take_phrase]
    cases t <;> simp [Phrase.take, Pat.accepts, Pat.kept]
  | name =>
    obtain ⟨letters, rfl⟩ := hword rfl
    rw [Pat.tokens, run_singleton, take_phrase]
    by_cases hfree : String.ofList letters ∈ reservedWords <;>
      simp [Phrase.take, Pat.accepts, Pat.kept, isAccess, hfree]
  | numeral | port | string =>
    rw [Pat.tokens, run_singleton, take_phrase]
    simp [Phrase.take, Pat.accepts, Pat.kept]
  | channel =>
    rw [Pat.tokens, run_append, run_channel hname, Option.bind_some, run_singleton, take_phrase]
    cases hname : isArgument name <;> simp [Phrase.take, Pat.accepts, Pat.kept, hname]

/-- A phrase is read to its end exactly if the name in it is taken wherever it stands. -/
theorem run_phrase {number : List Char} {name : List Token} {pats : List Pat}
    (hname : ∀ t ∈ name, t ≠ .symbol [')'] ∧ ∀ bytes, t ≠ .string bytes)
    (hword : .name ∈ pats → ∃ letters, name = [.word letters]) (hpats : pats ≠ []) (m : Meaning)
    (kept : List Token) :
    run ⟨top :: below, prior, [⟨m, pats, kept, []⟩]⟩ (pats.flatMap (Pat.tokens number name))
      = if pats.all (Pat.accepts name) then
          (Phrase.effect ⟨m, [], kept ++ pats.flatMap (Pat.kept number name), []⟩ prior top).map
            (after top below)
        else none := by
  -- The induction is on the places that are left; what has been kept so far is carried along.
  induction pats generalizing kept with
  | nil => exact absurd rfl hpats
  | cons pat pats ih =>
    rw [List.flatMap_cons, run_append, run_pat hname (fun h => hword (h ▸ List.mem_cons_self)) m
      pats kept,
      List.all_cons]
    cases pat.accepts name with
    | false => rfl
    | true =>
      rw [if_pos rfl, behind, Bool.true_and, List.flatMap_cons, ← List.append_assoc]
      cases pats with
      | nil =>
        cases hend : (Phrase.effect ⟨m, [], kept ++ pat.kept number name, []⟩ prior top).map
          (after top below) <;> simp [hend, run]
      | cons pat' pats =>
        rw [if_neg (List.cons_ne_nil _ _), Option.bind_some,
          ih (fun h => hword (List.mem_cons_of_mem _ h)) (List.cons_ne_nil _ _)]
        simp

end Reader

/-! ## What is spliced in

What stands in front of the number or the name, and the character behind it, keep it apart from the
text around it. -/

namespace Lexer

/-- A stop behind a text ends the token in which the text ends. -/
theorem run_stop {cs : List Char} {ts : List Token} (h : lex cs = some ⟨ts, .between⟩) {c : Char}
    (hc : isStop c = true) : run gap (cs ++ [c]) = some (ts ++ (start c).1, (start c).2) := by
  obtain ⟨⟨front, q⟩, hrun, hend⟩ := Option.bind_eq_some_iff.1 h
  obtain ⟨⟨back, ending⟩, hfinish, heq⟩ := Option.map_eq_some_iff.1 hend
  cases heq
  have hstep : q.run [c] = some (back ++ (start c).1, (start c).2) := by
    simp [run, step_stop hfinish hc]
  rw [run_append_of_eq hrun hstep, List.append_assoc]

/-- A number in square brackets. -/
theorem run_entry {ds : List Char} (hds : isDigits ds = true) :
    run (square 0) (ds ++ [']'])
      = some ([.symbol ['['], .numeral ds, .symbol [']']], gap) := by
  let d : Decimal := ⟨ds, [], [], hds, .inl rfl, .inl rfl⟩
  have hd : d.text = ds := by simp [d, Decimal.text]
  obtain ⟨⟨c, rest, rfl⟩, hdigit⟩ := Decimal.exists_of_isDigits hds
  have hc : c ≠ '=' ∧ c ≠ '[' := by
    constructor <;> rintro rfl <;> exact absurd (hdigit _ List.mem_cons_self) (by decide)
  have hstep : step (square 0) c = some (startBehind (.symbol ['[']) c) := by simp [step, hc]
  have hrun := run_stop (c := ']') (hd ▸ d.lex_text) rfl
  rw [List.cons_append] at hrun ⊢
  rw [run_of_startBehind hstep, hrun]
  rfl

/-- A name behind a dot. -/
theorem run_field {name : List Char} (hname : isIdentifierChars name = true) {c : Char}
    (hc : isStop c = true) :
    run (symbol ['.']) (name ++ [c])
      = some ([.symbol ['.'], .word name] ++ (start c).1, (start c).2) := by
  obtain ⟨a, rest, rfl, ha, -⟩ := exists_of_isIdentifierChars hname
  have hrun := run_stop (lex_identifier hname) hc
  rw [List.cons_append] at hrun ⊢
  rw [run_of_startBehind (step_dot_of_opensWord ha), hrun]
  rfl

/-- A text of words and dots ends between two tokens, unless it ends in what looks like a
numeral. -/
theorem finish_of_isPlain {q : Lexer} (hq : q.IsPlain) :
    (∃ ts, q.finish = some ⟨ts, .between⟩) ∨
      ∃ text, q = numeral text ∧ isNumeral text = false ∧ q.finish = none := by
  cases q with
  | gap | word letters | symbol marks => exact .inl ⟨_, rfl⟩
  | numeral text =>
    cases hnumeral : isNumeral text with
    | true => exact .inl ⟨[.numeral text], by simp [finish, hnumeral]⟩
    | false => exact .inr ⟨text, rfl, hnumeral, by simp [finish, hnumeral]⟩
  | square | dashes | commentSquare | comment | short | long => exact hq.elim

/-- A text of words and dots in front of a bracket. -/
theorem run_argument {cs : List Char} (hcs : ∀ c ∈ cs, isNameChar c = true ∨ c = '.') :
    run gap (cs ++ [')']) = (lex cs).map fun l => (l.tokens ++ [.symbol [')']], gap) := by
  rw [run_append, lex]
  cases hrun : run gap cs with
  | none => rfl
  | some x =>
    obtain ⟨ts, q⟩ := x
    rcases finish_of_isPlain (spells_run (q := .gap) trivial hcs hrun).plain with
      ⟨us, hfinish⟩ | ⟨text, rfl, hnumeral, hfinish⟩
    · simp [run, step_stop hfinish (c := ')') rfl, hfinish, Lexed.behind]
      decide
    · simp [run, step, hnumeral, hfinish, continuesNumeral_of_isStop (c := ')') rfl]

end Lexer

/-! ## Texts of phrases -/

theorem Reader.take_beginning {prior : Prior} (hprior : prior ≠ .dot)
    {letters : List Char} {p : Phrase} {ps : List Phrase} (h : Phrase.beginning letters = p :: ps)
    (top : Level) (below : List Level) :
    Reader.take ⟨top :: below, prior, []⟩ (.word letters)
      = some ([], ⟨top :: below, prior, p :: ps⟩) := by
  simp [Reader.take, Reader.hear, Reader.beginning, hprior, h]

/-- Where only one phrase is left behind some first tokens, so it is at like places. -/
theorem Reader.run_front {statements : Bool} {r r' : Reader} {top : Level} {below : List Level}
    (h : Like top below statements r r') (htop : top.Holds statements) {front : List Token}
    {own : List Level} {prior : Prior} {begun : List Phrase}
    (hfront : r.run front = some ([], ⟨own ++ [.around statements], prior, begun⟩))
    (hprior : prior ≠ .operand) :
    r'.run front = some ([], ⟨own ++ top :: below, prior, begun⟩) := by
  obtain ⟨⟨levels, prior', begun'⟩, hrun, ⟨own', hown, rfl⟩, rfl, hsame⟩ := h.run htop hfront
  obtain rfl : own = own' := List.append_cancel_right hown
  obtain rfl : prior' = prior := hsame.resolve_right fun h => hprior h.1
  exact hrun

/-- A text whose tokens are a phrase behind some first ones, where only this phrase is left. -/
theorem Spot.follow_phrase {cs number : List Char} {front name : List Token} {pats : List Pat}
    (hlex : Lexer.run .gap cs = some (front ++ pats.flatMap (Pat.tokens number name), .gap))
    (hname : ∀ t ∈ name, t ≠ .symbol [')'] ∧ ∀ bytes, t ≠ .string bytes)
    (hword : .name ∈ pats → ∃ letters, name = [.word letters]) (hpats : pats ≠ []) {r : Reader}
    {top : Level} {below : List Level} {prior : Prior} {m : Meaning} {kept : List Token}
    (hfront : r.run front = some ([], ⟨top :: below, prior, [⟨m, pats, kept, []⟩]⟩)) :
    follow ⟨.gap, r⟩ cs
      = if pats.all (Pat.accepts name) then
          (Phrase.effect ⟨m, [], kept ++ pats.flatMap (Pat.kept number name), []⟩ prior top).map
            fun e => ((Reader.after top below e).1, ⟨.gap, (Reader.after top below e).2⟩)
        else none := by
  rw [follow, hlex, Option.bind_some, Reader.run_append, hfront, Option.bind_some,
    Reader.run_phrase hname hword hpats]
  split
  · simp only [Option.map_map]
    rfl
  · rfl

end BlockLink.Lua
