import BlockLink.Proofs.Lua.Signs

/-!
# `BlockLink/Proofs/Lua/Reading.lean` — a text is read in the same way wherever it stands

The reader keeps a stack of open constructs and looks at the top of it only. So two places that
differ in what lies below, or in what kind of place the outermost one is, lead on to places that
differ in the same way (`Reader.Like.run`). `IsValue` and `IsStatements` put this to use for the two
kinds of text that blocks compile to: from every place where a value may begin, or a statement, the
text is read to its end, with given signs, and it leaves the stack as it was.

Tokens do not end where texts end, so a place in the characters of a text (`Spot`) is a state of the
lexer and a place of the reader. Where a character cannot belong to the token in front of it
(`isStop`), the token is settled first, and that is the only way in which texts meet
(`Spot.follow_of_settle`).

Whether the names of a board can be read is left open here. Both notions have a condition `P`, and
allow for a text that cannot be read at all if `P` fails.
-/

set_option autoImplicit false

namespace BlockLink.Lua

open BlockLink.Text

/-! ## Runs of the reader -/

namespace Reader

/-- The reader takes tokens one by one. -/
theorem run_append (r : Reader) (ts us : List Token) :
    r.run (ts ++ us) = (r.run ts).bind fun x => (x.2.run us).map fun y => (x.1 ++ y.1, y.2) := by
  induction ts generalizing r with
  | nil =>
    rw [List.nil_append, run, Option.bind_some]
    cases r.run us <;> rfl
  | cons t ts ih =>
    rw [List.cons_append, run, run]
    cases r.take t with
    | none => rfl
    | some x =>
      rw [Option.bind_some, Option.bind_some, ih]
      cases x.2.run ts with
      | none => rfl
      | some y =>
        simp only [Option.bind_some, Option.map_some]
        cases y.2.run us with
        | none => rfl
        | some z => simp

theorem run_append_of_eq {r r' r'' : Reader} {ts us : List Token} {es es' : List Sign}
    (hts : r.run ts = some (es, r')) (hus : r'.run us = some (es', r'')) :
    r.run (ts ++ us) = some (es ++ es', r'') := by
  rw [run_append, hts, Option.bind_some, hus]
  rfl

theorem run_singleton (r : Reader) (t : Token) : r.run [t] = r.take t := by
  rw [run]
  cases r.take t with
  | none => rfl
  | some x => simp [run]

end Reader

/-! ## What is below does not matter

The reader never closes the construct in which a text stands, as a text that does so is refused.
Hence the stack below the text can be exchanged. -/

/-- A construct that may be around a text in place of `.around statements`. -/
def Level.Holds (top : Level) (statements : Bool) : Prop :=
  statements = true → top.isBlock = true

/-- A word has the same effect in the place that stands for what is around a text as in any
construct that may be there, and it leaves that construct open. -/
theorem Kind.effect_of_around {kind : Kind} {prior : Prior} {statements : Bool} {e : Effect}
    (h : kind.effect prior (.around statements) = some e) {top : Level}
    (htop : top.Holds statements) :
    e.keeps = true ∧ kind.effect prior top = some e := by
  cases kind with
  | does | while_ | if_ | leads =>
    cases statements with
    | false => cases h
    | true =>
      cases h
      refine ⟨rfl, ?_⟩
      cases top <;> first | rfl | exact absurd (htop rfl) (by decide) | simp [effect, htop rfl]
  -- These look at what is open, and on their own there is nothing open that they go with.
  | then_ | else_ | ends | unknown => cases h
  | negates | constant =>
    cases hready : prior.isReady with
    | false => simp [effect, hready] at h
    | true =>
      simp only [effect, hready, if_true, Option.some.injEq] at h ⊢
      subst h
      exact ⟨rfl, rfl⟩
  | called | library | stored =>
    cases h
    exact ⟨rfl, rfl⟩

/-- A symbol has the same effect in any construct, too: none closes what is around the text. -/
theorem symbolEffect_of_around {marks : List Char} {prior : Prior} {statements : Bool} {e : Effect}
    (h : symbolEffect marks prior (.around statements) = some e) (top : Level) :
    e.keeps = true ∧ symbolEffect marks prior top = some e := by
  -- A closing bracket has nothing to close around a text.
  have hopen : top.closer?.any (fun c => marks == [c]) = false := by
    rw [Bool.eq_false_iff]
    intro hclose
    cases top <;> simp only [Level.closer?, Option.any_some, Option.any_none, beq_iff_eq] at hclose
    all_goals first
      | exact absurd hclose Bool.false_ne_true
      | (subst hclose; exact nomatch (show none = some e from h))
  have hsame : symbolEffect marks prior top = symbolEffect marks prior (.around statements) := by
    unfold symbolEffect
    rw [hopen]
    rfl
  rw [hsame]
  refine ⟨?_, h⟩
  unfold symbolEffect at h
  simp only [Level.closer?, Option.any_none, Bool.false_eq_true, if_false] at h
  repeat' split at h
  all_goals cases h
  all_goals rfl

theorem Token.effect_of_around {t : Token} {prior : Prior} {statements : Bool} {e : Effect}
    (h : t.effect prior (.around statements) = some e) {top : Level} (htop : top.Holds statements) :
    e.keeps = true ∧ t.effect prior top = some e := by
  cases t with
  | word letters =>
    simp only [effect] at h ⊢
    split at h
    · split at h
      · cases h
      · cases h
        simp_all
    · rename_i hdot
      rw [if_neg hdot]
      exact Kind.effect_of_around h htop
  | numeral text | string bytes =>
    simp only [effect] at h ⊢
    split at h
    · cases h
      simp_all
    · cases h
  | symbol marks => exact symbolEffect_of_around h top
  | stray byte => cases h

theorem Phrase.effect_of_around {p : Phrase} {prior : Prior} {statements : Bool} {e : Effect}
    (h : p.effect prior (.around statements) = some e) {top : Level} (htop : top.Holds statements) :
    e.keeps = true ∧ p.effect prior top = some e := by
  unfold effect at h ⊢
  cases hmeaning : p.meaning with
  | pause | publish | amount =>
    rw [hmeaning] at h
    cases h
    exact ⟨rfl, rfl⟩
  | use mode =>
    rw [hmeaning] at h
    obtain ⟨handle, hhandle, rfl⟩ := Option.map_eq_some_iff.1 h
    exact ⟨rfl, by simp [hhandle]⟩
  | guard mode | reading mode | connect =>
    rw [hmeaning] at h
    simp at h
  | count | clear =>
    rw [hmeaning] at h
    cases statements with
    | false => cases h
    | true =>
      cases h
      exact ⟨rfl, by simp [htop rfl]⟩

namespace Reader

/-- What a token comes to, by itself or at the end of a phrase. -/
theorem effect_of_hear {prior : Prior} {begun : List Phrase} {t : Token}
    {effect : Level → Option Effect} (h : hear prior begun t = .now effect) {statements : Bool}
    {e : Effect} (he : effect (.around statements) = some e) {top : Level}
    (htop : top.Holds statements) : e.keeps = true ∧ effect top = some e := by
  unfold hear at h
  split at h
  · split at h
    · cases h
      exact Token.effect_of_around he htop
    · cases h
  · split at h
    · cases h
      cases he
    · split at h
      · cases h
        exact Phrase.effect_of_around he htop
      · cases h

/-- A token is taken in the same way whatever is around the text. -/
theorem take_above {prior : Prior} {begun : List Phrase} {own : List Level} {statements : Bool}
    {t : Token} {x : List Sign × Reader}
    (h : take ⟨own ++ [.around statements], prior, begun⟩ t = some x) {top : Level}
    (htop : top.Holds statements) (below : List Level) :
    ∃ own', x.2.levels = own' ++ [.around statements] ∧
      take ⟨own ++ top :: below, prior, begun⟩ t
        = some (x.1, ⟨own' ++ top :: below, x.2.prior, x.2.begun⟩) := by
  cases hhear : hear prior begun t with
  | on more =>
    have hmore : x = ([], ⟨own ++ [.around statements], prior, more⟩) := by
      cases own <;> simpa [take, hhear] using h.symm
    subst hmore
    exact ⟨own, rfl, by cases own <;> simp [take, hhear]⟩
  | now effect =>
    cases own with
    -- The outermost place is on top: the effect there is the same, and keeps it.
    | nil =>
      simp only [List.nil_append, take, hhear] at h ⊢
      obtain ⟨e, he, rfl⟩ := Option.map_eq_some_iff.1 h
      obtain ⟨hkeeps, hsame⟩ := effect_of_hear hhear he htop
      exact ⟨e.opens, by simp [after, hkeeps], by simp [hsame, after, hkeeps]⟩
    -- Something else is on top, and only that is looked at.
    | cons l own =>
      simp only [List.cons_append, take, hhear] at h ⊢
      obtain ⟨e, he, rfl⟩ := Option.map_eq_some_iff.1 h
      refine ⟨e.opens ++ (if e.keeps then l :: own else own), ?_, ?_⟩
      · cases hkeeps : e.keeps <;> simp [after, hkeeps]
      · cases hkeeps : e.keeps <;> simp [he, after, hkeeps]

theorem effect_ready {prior : Prior} (hprior : prior.isReady = true) (t : Token) (top : Level) :
    t.effect prior top = t.effect .operand top := by
  cases prior <;> first | exact absurd hprior (by decide) | (cases t <;> rfl)

/-- A phrase that may stand behind an operator may stand anywhere. -/
theorem phraseEffect_of_operand {p : Phrase} {top : Level} {e : Effect}
    (h : p.effect .operand top = some e) (prior : Prior) : p.effect prior top = some e := by
  unfold Phrase.effect at h ⊢
  cases hmeaning : p.meaning with
  | guard mode | reading mode | connect =>
    rw [hmeaning] at h
    simp at h
  | pause | use mode | publish | amount | count | clear =>
    rw [hmeaning] at h
    exact h

/-- A value is read in the same way behind an operator, a bracket and `if`: the place differs only
until the first of its phrases or tokens is complete. -/
theorem take_ready {prior : Prior} (hprior : prior.isReady = true) {levels : List Level}
    {begun : List Phrase} {t : Token} {x : List Sign × Reader}
    (h : take ⟨levels, .operand, begun⟩ t = some x) :
    take ⟨levels, prior, begun⟩ t = some x ∨
      ∃ more, x = ([], ⟨levels, .operand, more⟩) ∧
        take ⟨levels, prior, begun⟩ t = some ([], ⟨levels, prior, more⟩) := by
  have hdot : prior ≠ .dot := by
    rintro rfl
    cases hprior
  have hbegin : beginning prior t = beginning .operand t := by
    cases t <;> simp [beginning, hdot]
  cases levels with
  | nil => cases h
  | cons top below =>
    simp only [take] at h ⊢
    -- No phrase has begun, and the token begins one or not; or one of those that have begun goes
    -- on.
    cases begun with
    | nil =>
      simp only [hear, hbegin] at h ⊢
      cases hps : beginning .operand t with
      | nil =>
        simp only [hps] at h ⊢
        rw [effect_ready hprior]
        exact .inl h
      | cons p ps =>
        simp only [hps, Option.some.injEq] at h ⊢
        exact .inr ⟨p :: ps, h.symm, rfl⟩
    | cons p ps =>
      simp only [hear] at h ⊢
      cases hps : (p :: ps).filterMap (·.take t) with
      | nil => simp [hps] at h
      | cons q qs =>
        simp only [hps] at h ⊢
        by_cases hrest : q.rest = []
        · simp only [hrest, if_true] at h ⊢
          obtain ⟨e, he, rfl⟩ := Option.map_eq_some_iff.1 h
          exact .inl (by rw [phraseEffect_of_operand he prior]; rfl)
        · simp only [hrest, if_false, Option.some.injEq] at h ⊢
          exact .inr ⟨q :: qs, h.symm, rfl⟩

/-- The same place with other constructs around the text, and with something else in front of a
value that is about to begin. -/
structure Like (top : Level) (below : List Level) (statements : Bool) (r r' : Reader) : Prop where
  levels : ∃ own, r.levels = own ++ [.around statements] ∧ r'.levels = own ++ top :: below
  begun : r'.begun = r.begun
  prior : r'.prior = r.prior ∨ r.prior = .operand ∧ r'.prior.isReady = true

/-- A token is taken in the same way at like places. -/
theorem Like.take {top : Level} {below : List Level} {statements : Bool} {r r' : Reader}
    (h : Like top below statements r r') (htop : top.Holds statements) {t : Token} {es : List Sign}
    {s : Reader} (htake : r.take t = some (es, s)) :
    ∃ s', r'.take t = some (es, s') ∧ Like top below statements s s' := by
  obtain ⟨levels, prior, begun⟩ := r
  obtain ⟨levels', prior', begun'⟩ := r'
  obtain ⟨⟨own, rfl, rfl⟩, rfl, hprior⟩ := h
  obtain ⟨own', hlevels, habove⟩ := take_above htake htop below
  rcases hprior with rfl | ⟨rfl, hready⟩
  · exact ⟨_, habove, ⟨own', hlevels, rfl⟩, rfl, .inl rfl⟩
  · rcases take_ready hready habove with hsame | ⟨more, heq, hsame⟩
    · exact ⟨_, hsame, ⟨own', hlevels, rfl⟩, rfl, .inl rfl⟩
    · simp only [Prod.mk.injEq, Reader.mk.injEq, List.append_cancel_right_eq] at heq
      obtain ⟨rfl, rfl, hprior, rfl⟩ := heq
      exact ⟨_, hsame, ⟨own', hlevels, rfl⟩, rfl, .inr ⟨hprior, hready⟩⟩

/-- Readers that are alike read the same tokens to the same signs, and stay alike. -/
theorem Like.run {top : Level} {below : List Level} {statements : Bool} {r r' : Reader}
    (h : Like top below statements r r') (htop : top.Holds statements) {ts : List Token}
    {es : List Sign} {s : Reader} (hrun : r.run ts = some (es, s)) :
    ∃ s', r'.run ts = some (es, s') ∧ Like top below statements s s' := by
  induction ts generalizing r r' es with
  | nil =>
    cases hrun
    exact ⟨r', rfl, h⟩
  | cons t ts ih =>
    obtain ⟨⟨es₁, u⟩, htake, hrest⟩ := Option.bind_eq_some_iff.1 hrun
    obtain ⟨⟨es₂, s⟩, hmore, heq⟩ := Option.map_eq_some_iff.1 hrest
    cases heq
    obtain ⟨u', htake', hu⟩ := h.take htop htake
    obtain ⟨s', hrun', hs⟩ := ih hu hmore
    refine ⟨s', ?_, hs⟩
    rw [Reader.run, htake', Option.bind_some, hrun']
    rfl

/-- Behind a whole value or statement only the construct around it is left. -/
theorem Like.eq_of_settled {top : Level} {below : List Level} {statements : Bool} {r : Reader}
    (h : Like top below statements ⟨[.around statements], .settled, []⟩ r) :
    r = ⟨top :: below, .settled, []⟩ := by
  obtain ⟨levels, prior, begun⟩ := r
  obtain ⟨⟨own, hown, rfl⟩, rfl, hprior⟩ := h
  obtain rfl : own = [] := by simpa using hown
  obtain rfl : prior = .settled := by simpa using hprior
  rfl

end Reader

/-! ## Characters

A place in the middle of a text is a place in the middle of a token. What comes next may belong to
that token or not, and `isStop` are the characters that never do. -/

/-- A place in a text: what the lexer and the reader are in the middle of. -/
structure Spot where
  lexer : Lexer
  reader : Reader
  deriving DecidableEq, Repr

/-- Takes characters. -/
def Spot.follow (p : Spot) (cs : List Char) : Option (List Sign × Spot) :=
  (p.lexer.run cs).bind fun x => (p.reader.run x.1).map fun y => (y.1, ⟨x.2, y.2⟩)

/-- What the reader comes to if nothing follows, outside comments and strings. -/
def Spot.settle (p : Spot) : Option (List Sign × Reader) :=
  p.lexer.finish.bind fun l => if l.ending = .between then p.reader.run l.tokens else none

namespace Spot

/-- Characters are taken one by one. -/
theorem follow_append (p : Spot) (xs ys : List Char) :
    p.follow (xs ++ ys)
      = (p.follow xs).bind fun x => (x.2.follow ys).map fun y => (x.1 ++ y.1, y.2) := by
  unfold follow
  rw [Lexer.run_append]
  cases p.lexer.run xs with
  | none => rfl
  | some x =>
    obtain ⟨ts, q⟩ := x
    cases hread : p.reader.run ts with
    | none =>
      cases hlex : q.run ys with
      | none => simp [hread, hlex]
      | some y => simp [hread, hlex, Reader.run_append]
    | some z =>
      cases hlex : q.run ys with
      | none => simp [hread, hlex]
      | some y =>
        simp only [Option.bind_some, Option.map_some, hread, hlex, Reader.run_append]
        cases z.2.run y.1 <;> rfl

theorem follow_append_of_eq {p p' p'' : Spot} {xs ys : List Char} {es es' : List Sign}
    (hxs : p.follow xs = some (es, p')) (hys : p'.follow ys = some (es', p'')) :
    p.follow (xs ++ ys) = some (es ++ es', p'') := by
  rw [follow_append, hxs, Option.bind_some, hys]
  rfl

end Spot

/-- Whether a character ends every token in front of it. -/
def isStop (c : Char) : Bool :=
  [' ', '\n', ')', ']', ',', '\x7d'].contains c

theorem eq_of_isStop {c : Char} (hc : isStop c = true) :
    c = ' ' ∨ c = '\n' ∨ c = ')' ∨ c = ']' ∨ c = ',' ∨ c = '\x7d' := by
  simpa [isStop] using hc

theorem continuesNumeral_of_isStop {c : Char} (hc : isStop c = true) (text : List Char) :
    continuesNumeral text c = false := by
  have hmark : ∀ hexadecimal, isExponentMark hexadecimal c = false := by
    rcases eq_of_isStop hc with rfl | rfl | rfl | rfl | rfl | rfl <;> decide
  have hplain : (digitValue? 16 c).isSome = false ∧ c ≠ '.' ∧ c ≠ 'x' ∧ c ≠ 'X' ∧
      c ≠ '+' ∧ c ≠ '-' := by
    rcases eq_of_isStop hc with rfl | rfl | rfl | rfl | rfl | rfl <;> decide
  simp [continuesNumeral, hmark, hplain]

theorem not_longSymbol_of_isStop {c : Char} (hc : isStop c = true) (marks : List Char) :
    longSymbols.contains (marks ++ [c]) = false := by
  have hlast : longSymbols.all (fun m => m.getLast? != some c) = true := by
    rcases eq_of_isStop hc with rfl | rfl | rfl | rfl | rfl | rfl <;> decide
  rw [Bool.eq_false_iff]
  intro hmem
  have hm := List.all_eq_true.mp hlast _ (List.contains_iff_mem.mp hmem)
  simp at hm

/-- Such a character ends whatever the end of the text would have ended. -/
theorem Lexer.step_stop {q : Lexer} {ts : List Token}
    (h : q.finish = some ⟨ts, .between⟩) {c : Char} (hc : isStop c = true) :
    q.step c = some (ts ++ (start c).1, (start c).2) := by
  have hplain : isNameChar c = false ∧ isDigit c = false ∧ c ≠ '-' ∧ c ≠ '.' ∧
      c ≠ '=' ∧ c ≠ '[' := by
    rcases eq_of_isStop hc with rfl | rfl | rfl | rfl | rfl | rfl <;> decide
  cases q with
  | gap =>
    cases h
    rfl
  | word letters =>
    cases h
    simp [step, hplain, startBehind]
  -- A numeral must be one at the end of the text, and so it must in front of a stop.
  | numeral text =>
    rw [finish] at h
    split at h
    · rename_i hnumeral
      cases h
      simp [step, continuesNumeral_of_isStop hc, hnumeral, startBehind]
    · cases h
  | symbol marks =>
    cases h
    simp only [step, not_longSymbol_of_isStop hc, startBehind]
    simp [hplain]
  | square level =>
    rw [finish] at h
    split at h
    · rename_i hlevel
      cases h
      subst hlevel
      simp [step, hplain, startBehind]
    · cases h
  | dashes | commentSquare | comment | short | long => cases h

namespace Spot

/-- Behind a stop the rest of a text is read as from between two tokens. -/
theorem follow_of_settle {p : Spot} {es : List Sign} {r : Reader} (h : p.settle = some (es, r))
    {c : Char} (hc : isStop c = true) (cs : List Char) :
    p.follow (c :: cs)
      = (follow ⟨.gap, r⟩ (c :: cs)).map fun x => (es ++ x.1, x.2) := by
  obtain ⟨⟨ts, ending⟩, hfinish, hrun⟩ := Option.bind_eq_some_iff.1 h
  dsimp only at hrun
  split at hrun
  · rename_i hends
    subst hends
    have hgap : Lexer.step .gap c = some (Lexer.start c) := rfl
    simp only [follow, Lexer.run, Lexer.step_stop hfinish hc, hgap, Option.bind_some]
    cases Lexer.run (Lexer.start c).2 cs with
    | none => rfl
    | some y =>
      simp only [Option.map_some, Option.bind_some, List.append_assoc]
      rw [Reader.run_append, hrun, Option.bind_some]
      cases r.run ((Lexer.start c).1 ++ y.1) <;> rfl
  · cases hrun

end Spot

/-! ## Values and statements -/

/-- From a place the text is read to its end, with these signs, and the reader is then here. -/
def Spot.Reads (p : Spot) (cs : List Char) (es : List Sign) (r : Reader) : Prop :=
  ∃ es₁ es₂ q, p.follow cs = some (es₁, q) ∧ q.settle = some (es₂, r) ∧ es = es₁ ++ es₂

/-- From wherever a value may begin the text is read as one, with these signs. -/
def IsValue (P : Prop) (cs : List Char) (es : List Sign) : Prop :=
  ∀ top below prior, prior.isReady = true →
    Spot.Reads ⟨.gap, ⟨top :: below, prior, []⟩⟩ cs es ⟨top :: below, .settled, []⟩ ∨
      Spot.follow ⟨.gap, ⟨top :: below, prior, []⟩⟩ cs = none ∧ ¬ P

/-- From wherever a statement may begin the text is read as whole statements, with these signs. -/
def IsStatements (P : Prop) (cs : List Char) (es : List Sign) : Prop :=
  ∀ top below, top.isBlock = true →
    Spot.follow ⟨.gap, ⟨top :: below, .settled, []⟩⟩ cs
        = some (es, ⟨.gap, ⟨top :: below, .settled, []⟩⟩) ∨
      Spot.follow ⟨.gap, ⟨top :: below, .settled, []⟩⟩ cs = none ∧ ¬ P

section Kinds

variable {P : Prop} {cs ds : List Char} {es fs : List Sign}

theorem isStatements_nil : IsStatements P [] [] :=
  fun _ _ _ => .inl rfl

theorem IsStatements.append (h : IsStatements P cs es) (h' : IsStatements P ds fs) :
    IsStatements P (cs ++ ds) (es ++ fs) := by
  intro top below htop
  rcases h top below htop with h | ⟨h, hP⟩
  · rcases h' top below htop with h' | ⟨h', hP⟩
    · exact .inl (Spot.follow_append_of_eq h h')
    · exact .inr ⟨by rw [Spot.follow_append, h, Option.bind_some, h']; rfl, hP⟩
  · exact .inr ⟨by rw [Spot.follow_append, h]; rfl, hP⟩

end Kinds

end BlockLink.Lua
