import BlockLink.Proofs.Lua.Numeral
import BlockLink.Proofs.Lua.Pattern
import BlockLink.Proofs.Lua.Reading

/-!
# `BlockLink/Proofs/Lua/Outline.lean` — reading a template once for all fillings

What a block writes is a pattern with operands in it. The pattern alone can be run through the
reader, with a mark in the place of each operand: at the mark the reader has to be where a value may
begin, or a statement, and goes on as it does behind one (`Sight.takeAll`). What comes out is an
`Outline`, the signs of the pattern with places left open for those of the operands. For a pattern
that is written down this is a computation, which `decide` carries out.

The main statements carry the outcome to every filling: if the operands are read as values and
statements with signs of their own, the whole text is read with the outline filled in by them
(`isValue_of_pattern`, `isStatements_of_pattern`).
-/

set_option autoImplicit false

namespace BlockLink.Lua

open BlockLink.Text

/-! ## Patterns

What a text is filled from, and what comes out when the pattern alone is read. -/

/-- The characters are those of the parts in order; the signs are those of the values and statements
among them. -/
inductive Filled (P : Prop) : List Part → List Char → List (List Sign) → Prop where
  | nil : Filled P [] [] []
  | text {cs xs : List Char} {ps : List Part} {hs : List (List Sign)} (h : Filled P ps xs hs) :
      Filled P (.text cs :: ps) (cs ++ xs) hs
  | expression {cs xs : List Char} {ps : List Part} {es : List Sign} {hs : List (List Sign)}
      (hcs : IsValue P cs es) (h : Filled P ps xs hs) :
      Filled P (.expression :: ps) (cs ++ xs) (es :: hs)
  | script {cs xs : List Char} {ps : List Part} {es : List Sign} {hs : List (List Sign)}
      (hcs : IsStatements P cs es) (h : Filled P ps xs hs) :
      Filled P (.script :: ps) (cs ++ xs) (es :: hs)
  | digits {cs xs : List Char} {ps : List Part} {hs : List (List Sign)}
      (hcs : isDigits cs = true) (h : Filled P ps xs hs) : Filled P (.digits :: ps) (cs ++ xs) hs
  | quoted (s : String) {xs : List Char} {ps : List Part} {hs : List (List Sign)}
      (h : Filled P ps xs hs) : Filled P (.quoted :: ps) ((quote s).toList ++ xs) hs

/-- Patterns are filled one behind the other. -/
theorem Filled.append {P : Prop} {ps qs : List Part} {xs ys : List Char} {hs ks : List (List Sign)}
    (h : Filled P ps xs hs) (h' : Filled P qs ys ks) :
    Filled P (ps ++ qs) (xs ++ ys) (hs ++ ks) := by
  induction h with
  | nil => exact h'
  | text _ ih =>
    rw [List.append_assoc]
    exact .text ih
  | expression hcs _ ih =>
    rw [List.append_assoc]
    exact .expression hcs ih
  | script hcs _ ih =>
    rw [List.append_assoc]
    exact .script hcs ih
  | digits hcs _ ih =>
    rw [List.append_assoc]
    exact .digits hcs ih
  | quoted s _ ih =>
    rw [List.append_assoc]
    exact .quoted s ih

/-- A text is put together from parts in order. -/
def Fits (P : Prop) (s : String) (parts : List Part) (hs : List (List Sign)) : Prop :=
  Filled P parts s.toList hs

section Fits

variable {P : Prop} {a b : String} {ps qs : List Part} {hs ks : List (List Sign)}

theorem Fits.append (h : Fits P a ps hs) (h' : Fits P b qs ks) :
    Fits P (a ++ b) (ps ++ qs) (hs ++ ks) := by
  unfold Fits
  rw [String.toList_append]
  exact Filled.append h h'

theorem fits_text {cs : List Char} : Fits P (String.ofList cs) [.text cs] [] := by
  unfold Fits
  rw [String.toList_ofList]
  have hfilled : Filled P [.text cs] (cs ++ []) [] := .text .nil
  rwa [List.append_nil] at hfilled

theorem IsValue.fits {es : List Sign} (h : IsValue P a.toList es) :
    Fits P a [.expression] [es] := by
  simpa [Fits] using Filled.expression h .nil

theorem IsStatements.fits {es : List Sign} (h : IsStatements P a.toList es) :
    Fits P a [.script] [es] := by
  simpa [Fits] using Filled.script h .nil

theorem fits_quote (s : String) : Fits P (quote s) [.quoted] [] := by
  simpa [Fits] using Filled.quoted (P := P) s .nil

theorem fits_digits (h : isDigits a.toList = true) : Fits P a [.digits] [] := by
  simpa [Fits] using Filled.digits (P := P) h .nil

end Fits

/-- The signs of a pattern, with a gap for each value and for each row of statements in it. -/
abbrev Outline := List (Option Sign)

/-- Puts signs into the gaps in order. -/
def Outline.fill : Outline → List (List Sign) → List Sign
  | [], _ => []
  | some e :: o, hs => e :: fill o hs
  | none :: o, h :: hs => h ++ fill o hs
  | none :: o, [] => fill o []

/-- The signs of fixed texts stand in front of those that are still to be filled in. -/
theorem Outline.fill_signs (es : List Sign) (o : Outline) (hs : List (List Sign)) :
    fill (es.map some ++ o) hs = es ++ fill o hs := by
  induction es with
  | nil => rfl
  | cons e es ih => rw [List.map_cons, List.cons_append, fill, ih, List.cons_append]

/-- What is known of a place in a pattern: what the lexer is in the middle of, or only that it has
come to the end of a token, and where the reader then is. -/
structure Sight where
  lexer : Option Lexer
  reader : Reader
  deriving DecidableEq, Repr

namespace Sight

/-- A place that was just read up to. -/
def of (x : List Sign × Spot) : Outline × Sight :=
  (x.1.map some, ⟨some x.2.lexer, x.2.reader⟩)

/-- Takes a fixed text, which behind an operand must begin with a stop. -/
def takeText (v : Sight) (cs : List Char) : Option (Outline × Sight) :=
  match v.lexer, cs with
  | some q, cs => (Spot.follow ⟨q, v.reader⟩ cs).map of
  | none, [] => some ([], v)
  | none, c :: cs => if isStop c then (Spot.follow ⟨.gap, v.reader⟩ (c :: cs)).map of else none

/-- Whether a value may begin. -/
def isReady (v : Sight) : Bool :=
  v.lexer = some .gap && v.reader.prior.isReady && v.reader.begun.isEmpty
    && !v.reader.levels.isEmpty

/-- Whether a statement may begin. -/
def isFree (v : Sight) : Bool :=
  v.lexer = some .gap && v.reader.prior == .settled && v.reader.begun.isEmpty
    && v.reader.levels.head?.any Level.isBlock

/-- Takes a part of a pattern. -/
def take (v : Sight) : Part → Option (Outline × Sight)
  | .text cs => v.takeText cs
  | .expression =>
    if v.isReady then some ([none], ⟨none, { v.reader with prior := .settled }⟩) else none
  | .script => if v.isFree then some ([none], v) else none
  | .digits =>
    if v.lexer = some .gap ∧ v.reader.begun.all (·.rest.head? == some .port) then
      (v.reader.take (.numeral ['0'])).map fun x => (x.1.map some, ⟨none, x.2⟩)
    else none
  | .quoted =>
    match v.lexer with
    | some .gap => (v.reader.run [.string []]).map fun x => (x.1.map some, ⟨some .gap, x.2⟩)
    | some (.square 0) =>
      (v.reader.run [.symbol ['['], .string []]).map fun x => (x.1.map some, ⟨some .gap, x.2⟩)
    | _ => none

/-- Takes the parts of a pattern. -/
def takeAll (v : Sight) : List Part → Option (Outline × Sight)
  | [] => some ([], v)
  | p :: ps => (v.take p).bind fun x => (takeAll x.2 ps).map fun y => (x.1 ++ y.1, y.2)

end Sight

/-! ## From a pattern to its fillings

The invariant is that what is known of the place (`Sight.Covers`) is true of it, for the lexer and
the reader as they are after the operands that were really put in. -/

/-- What a string holds does not matter. -/
theorem Reader.run_string (r : Reader) (a b : List UInt8) :
    r.run [.string a] = r.run [.string b] := by
  have htake : ∀ p : Phrase, p.take (.string a) = p.take (.string b) := by
    intro p
    unfold Phrase.take
    cases p.rest with
    | nil => rfl
    | cons pat rest => cases pat <;> rfl
  have hhear : hear r.prior r.begun (.string a) = hear r.prior r.begun (.string b) := by
    unfold hear
    simp only [htake]
    rfl
  simp only [run, take, hhear]

/-- The text of a numeral that is not kept does not matter. -/
theorem Reader.take_numeral {r : Reader} (h : r.begun.all (·.rest.head? == some .port) = true)
    (a b : List Char) : r.take (.numeral a) = r.take (.numeral b) := by
  have htake : r.begun.filterMap (·.take (.numeral a))
      = r.begun.filterMap (·.take (.numeral b)) := by
    generalize r.begun = ps at h
    induction ps with
    | nil => rfl
    | cons p ps ih =>
      rw [List.all_cons, Bool.and_eq_true, beq_iff_eq] at h
      obtain ⟨rest, hrest⟩ := List.head?_eq_some_iff.1 h.1
      have hp : p.take (.numeral a) = p.take (.numeral b) := by simp [Phrase.take, hrest]
      rw [List.filterMap_cons, List.filterMap_cons, hp, ih h.2]
  have hhear : hear r.prior r.begun (.numeral a) = hear r.prior r.begun (.numeral b) := by
    cases hbegun : r.begun with
    | nil => rfl
    | cons p ps =>
      rw [hbegun] at htake
      simp only [hear, htake]
  simp only [take, hhear]

namespace Sight

/-- The place is as it is known to be, when these signs are still to come from the token in which
the lexer is. -/
def Covers (v : Sight) (p : Spot) (pending : List Sign) : Prop :=
  match v.lexer with
  | some q => p = ⟨q, v.reader⟩ ∧ pending = []
  | none => p.settle = some (pending, v.reader)

theorem covers_self (q : Lexer) (r : Reader) : Covers ⟨some q, r⟩ ⟨q, r⟩ [] :=
  ⟨rfl, rfl⟩

/-- A text leads from a place to one that is known, with these signs. -/
def Leads (P : Prop) (p : Spot) (cs : List Char) (es : List Sign) (v : Sight) : Prop :=
  (∃ es₁ q pending, p.follow cs = some (es₁, q) ∧ v.Covers q pending ∧ es = es₁ ++ pending) ∨
    p.follow cs = none ∧ ¬ P

variable {P : Prop} {v w : Sight} {p : Spot} {cs ds : List Char} {es fs pending : List Sign}

/-- Two texts in a row. Behind the first one only what is known of the place may be used. -/
theorem Leads.append (h : Leads P p cs es v)
    (h' : ∀ q pending, v.Covers q pending → Leads P q ds (pending ++ fs) w) :
    Leads P p (cs ++ ds) (es ++ fs) w := by
  rcases h with ⟨es₁, q, pending, hfollow, hq, rfl⟩ | ⟨hnone, hP⟩
  · rcases h' q pending hq with ⟨fs₁, q', pending', hfollow', hq', hfs⟩ | ⟨hnone, hP⟩
    · refine .inl ⟨es₁ ++ fs₁, q', pending', Spot.follow_append_of_eq hfollow hfollow', hq', ?_⟩
      rw [List.append_assoc, hfs, List.append_assoc]
    · exact .inr ⟨by rw [Spot.follow_append, hfollow, Option.bind_some, hnone]; rfl, hP⟩
  · exact .inr ⟨by rw [Spot.follow_append, hnone]; rfl, hP⟩

/-- Behind an operand the lexer may still be in its last token. A stop ends that token, and then the
text is read as behind a gap. -/
theorem leads_of_takeText {o : Outline} (hv : v.Covers p pending)
    (h : v.takeText cs = some (o, w)) :
    ∃ es, o = es.map some ∧ Leads P p cs (pending ++ es) w := by
  obtain ⟨lexer, r⟩ := v
  cases lexer with
  | some q =>
    obtain ⟨rfl, rfl⟩ := hv
    obtain ⟨⟨es, q'⟩, hfollow, heq⟩ := Option.map_eq_some_iff.1 h
    cases heq
    exact ⟨es, rfl, .inl ⟨es, q', [], hfollow, ⟨rfl, rfl⟩, by simp⟩⟩
  -- Behind an operand the token is not settled, so the next character has to settle it.
  | none =>
    cases cs with
    | nil =>
      cases h
      exact ⟨[], rfl, .inl ⟨[], p, pending, rfl, hv, by simp⟩⟩
    | cons c cs =>
      simp only [takeText] at h
      split at h
      · rename_i hc
        obtain ⟨⟨es, q'⟩, hfollow, heq⟩ := Option.map_eq_some_iff.1 h
        cases heq
        refine ⟨es, rfl, .inl ⟨pending ++ es, q', [], ?_, ⟨rfl, rfl⟩, by simp⟩⟩
        rw [Spot.follow_of_settle hv hc, hfollow]
        rfl
      · cases h

/-- At the place of a value, any value may be read. -/
theorem leads_of_isValue (hv : v.Covers p pending) (hready : v.isReady = true)
    (hcs : IsValue P cs es) :
    Leads P p cs (pending ++ es) ⟨none, { v.reader with prior := .settled }⟩ := by
  obtain ⟨lexer, levels, prior, begun⟩ := v
  simp only [isReady, Bool.and_eq_true, decide_eq_true_eq, List.isEmpty_iff, Bool.not_eq_true',
    List.isEmpty_eq_false_iff] at hready
  obtain ⟨⟨⟨rfl, hprior⟩, rfl⟩, hlevels⟩ := hready
  obtain ⟨rfl, rfl⟩ := hv
  obtain ⟨top, below, rfl⟩ := List.exists_cons_of_ne_nil hlevels
  rcases hcs top below prior hprior with ⟨es₁, es₂, q, hfollow, hsettle, rfl⟩ | hnone
  · exact .inl ⟨es₁, q, es₂, hfollow, hsettle, by simp⟩
  · exact .inr hnone

theorem leads_of_isStatements (hv : v.Covers p pending) (hfree : v.isFree = true)
    (hcs : IsStatements P cs es) : Leads P p cs (pending ++ es) v := by
  obtain ⟨lexer, levels, prior, begun⟩ := v
  simp only [isFree, Bool.and_eq_true, decide_eq_true_eq, beq_iff_eq, List.isEmpty_iff,
    Option.any_eq_true] at hfree
  obtain ⟨⟨⟨rfl, rfl⟩, rfl⟩, top, htop, hblock⟩ := hfree
  obtain ⟨rfl, rfl⟩ := hv
  obtain ⟨below, rfl⟩ := List.head?_eq_some_iff.1 htop
  rcases hcs top below hblock with hfollow | hnone
  · exact .inl ⟨es, _, [], hfollow, ⟨rfl, rfl⟩, by simp⟩
  · exact .inr hnone

/-- Digits are a numeral. What the reader does there does not depend on its value. -/
theorem leads_of_isDigits (hv : v.Covers p pending) (hgap : v.lexer = some .gap)
    (hport : v.reader.begun.all (·.rest.head? == some .port) = true) (hcs : isDigits cs = true)
    {x : List Sign × Reader} (hx : v.reader.take (.numeral ['0']) = some x) :
    Leads P p cs (pending ++ x.1) ⟨none, x.2⟩ := by
  obtain ⟨lexer, r⟩ := v
  obtain rfl : lexer = some .gap := hgap
  obtain ⟨rfl, rfl⟩ := hv
  let d : Decimal := ⟨cs, [], [], hcs, .inl rfl, .inl rfl⟩
  have hd : d.text = cs := by simp [d, Decimal.text]
  have hlex := d.run_text
  have hnumeral := d.isNumeral_text
  rw [hd] at hlex hnumeral
  refine .inl ⟨[], ⟨.numeral cs, r⟩, x.1, ?_, ?_, rfl⟩
  · simp [Spot.follow, hlex, Reader.run]
  · simp only [Covers, Spot.settle, Lexer.finish, if_pos hnumeral, Option.bind_some, if_true,
      Reader.run_singleton]
    rw [Reader.take_numeral hport cs ['0'], hx]

/-- A quoted text is a string, also behind a bracket that is still open for a long one. -/
theorem leads_of_quote (s : String) (hv : v.Covers p pending) (ts : List Token) {q : Lexer}
    (hlexer : v.lexer = some q)
    (hq : q.run (quote s).toList = some (ts ++ [.string (textBytes s)], .gap))
    {x : List Sign × Reader} (hx : v.reader.run (ts ++ [.string []]) = some x) :
    Leads P p (quote s).toList (pending ++ x.1) ⟨some .gap, x.2⟩ := by
  obtain ⟨lexer, r⟩ := v
  obtain rfl : lexer = some q := hlexer
  obtain ⟨rfl, rfl⟩ := hv
  have hsame : r.run (ts ++ [.string (textBytes s)]) = r.run (ts ++ [.string []]) := by
    rw [Reader.run_append, Reader.run_append]
    cases r.run ts with
    | none => rfl
    | some y => rw [Option.bind_some, Option.bind_some, Reader.run_string y.2 (textBytes s) []]
  refine .inl ⟨x.1, ⟨.gap, x.2⟩, [], ?_, ⟨rfl, rfl⟩, by simp⟩
  rw [Spot.follow, hq, Option.bind_some, hsame, hx]
  rfl

theorem exists_of_takeAll_cons {part : Part} {parts : List Part} {o : Outline}
    (h : v.takeAll (part :: parts) = some (o, w)) :
    ∃ o₁ u o₂, v.take part = some (o₁, u) ∧ u.takeAll parts = some (o₂, w) ∧ o = o₁ ++ o₂ := by
  obtain ⟨⟨o₁, u⟩, htake, hmap⟩ := Option.bind_eq_some_iff.1 h
  obtain ⟨⟨o₂, w'⟩, htakes, heq⟩ := Option.map_eq_some_iff.1 hmap
  cases heq
  exact ⟨o₁, u, o₂, htake, htakes, rfl⟩

/-- What is known of a place is enough to read a pattern there, whatever it is filled with. -/
theorem leads_of_takeAll {parts : List Part} {o : Outline} {hs : List (List Sign)}
    (hfilled : Filled P parts cs hs) (hv : v.Covers p pending) (h : v.takeAll parts = some (o, w)) :
    Leads P p cs (pending ++ o.fill hs) w := by
  induction hfilled generalizing v p pending o with
  | nil =>
    cases h
    exact .inl ⟨[], p, pending, rfl, hv, by simp [Outline.fill]⟩
  | @text cs xs ps hs hrest ih =>
    obtain ⟨o₁, u, o₂, htake, htakes, rfl⟩ := exists_of_takeAll_cons h
    obtain ⟨es, rfl, hleads⟩ := leads_of_takeText hv htake
    rw [Outline.fill_signs, ← List.append_assoc]
    exact hleads.append fun q pending' hq => ih hq htakes
  | @expression cs xs ps es hs hcs hrest ih =>
    obtain ⟨o₁, u, o₂, htake, htakes, rfl⟩ := exists_of_takeAll_cons h
    simp only [take] at htake
    split at htake
    · rename_i hready
      cases htake
      rw [List.singleton_append, Outline.fill, ← List.append_assoc]
      exact (leads_of_isValue hv hready hcs).append fun q pending' hq => ih hq htakes
    · cases htake
  | @script cs xs ps es hs hcs hrest ih =>
    obtain ⟨o₁, u, o₂, htake, htakes, rfl⟩ := exists_of_takeAll_cons h
    simp only [take] at htake
    split at htake
    · rename_i hfree
      cases htake
      rw [List.singleton_append, Outline.fill, ← List.append_assoc]
      exact (leads_of_isStatements hv hfree hcs).append fun q pending' hq => ih hq htakes
    · cases htake
  | @digits cs xs ps hs hcs hrest ih =>
    obtain ⟨o₁, u, o₂, htake, htakes, rfl⟩ := exists_of_takeAll_cons h
    simp only [take] at htake
    split at htake
    · rename_i hport
      obtain ⟨x, hx, heq⟩ := Option.map_eq_some_iff.1 htake
      cases heq
      rw [Outline.fill_signs, ← List.append_assoc]
      exact (leads_of_isDigits hv hport.1 hport.2 hcs hx).append fun q pending' hq => ih hq htakes
    · cases htake
  -- A string may stand behind a bracket that could have begun a long string: two cases of the
  -- lexer.
  | @quoted s xs ps hs hrest ih =>
    obtain ⟨o₁, u, o₂, htake, htakes, rfl⟩ := exists_of_takeAll_cons h
    simp only [take] at htake
    split at htake
    · rename_i hlexer
      obtain ⟨x, hx, heq⟩ := Option.map_eq_some_iff.1 htake
      cases heq
      rw [Outline.fill_signs, ← List.append_assoc]
      exact (leads_of_quote s hv [] hlexer (Lexer.run_quote s) hx).append
        fun q pending' hq => ih hq htakes
    · rename_i hlexer
      obtain ⟨x, hx, heq⟩ := Option.map_eq_some_iff.1 htake
      cases heq
      rw [Outline.fill_signs, ← List.append_assoc]
      exact (leads_of_quote s hv [.symbol ['[']] hlexer (Lexer.run_square_quote s) hx).append
        fun q pending' hq => ih hq htakes
    · cases htake

/-! A pattern is read in the same way at like places. -/

section Like

variable {top : Level} {below : List Level} {statements : Bool}

theorem like_follow {r r' : Reader} (h : r.Like top below statements r')
    (htop : top.Holds statements) {q : Lexer} {x : List Sign × Spot}
    (hfollow : Spot.follow ⟨q, r⟩ cs = some x) :
    ∃ s', Spot.follow ⟨q, r'⟩ cs = some (x.1, ⟨x.2.lexer, s'⟩) ∧
      x.2.reader.Like top below statements s' := by
  obtain ⟨⟨ts, q'⟩, hlex, hread⟩ := Option.bind_eq_some_iff.1 hfollow
  obtain ⟨⟨es, s⟩, hrun, rfl⟩ := Option.map_eq_some_iff.1 hread
  obtain ⟨s', hrun', hs⟩ := h.run htop hrun
  refine ⟨s', ?_, hs⟩
  simp only [Spot.follow, hlex, Option.bind_some, hrun', Option.map_some]

theorem isReady_of_like {r r' : Reader} (h : r.Like top below statements r') {lexer : Option Lexer}
    (hready : isReady ⟨lexer, r⟩ = true) : isReady ⟨lexer, r'⟩ = true := by
  obtain ⟨own, hlevels, hlevels'⟩ := h.levels
  have hprior : r.prior.isReady = true → r'.prior.isReady = true := fun hready =>
    h.prior.elim (fun heq => by rw [heq, hready]) (·.2)
  simp only [isReady, Bool.and_eq_true, hlevels] at hready
  simp [isReady, hready, hprior, h.begun, hlevels']

/-- A statement may stand at a place if it may stand at one like it. The level that it stands in
is one of the pattern, or the one around it, which holds statements if that of the other place
does. -/
theorem isFree_of_like {r r' : Reader} (h : r.Like top below statements r')
    (htop : top.Holds statements) {lexer : Option Lexer} (hfree : isFree ⟨lexer, r⟩ = true) :
    isFree ⟨lexer, r'⟩ = true := by
  obtain ⟨own, hlevels, hlevels'⟩ := h.levels
  simp only [isFree, Bool.and_eq_true, beq_iff_eq, hlevels] at hfree
  obtain ⟨⟨⟨hlexer, hsettled⟩, hbegun⟩, hblock⟩ := hfree
  have hsame : r'.prior = r.prior := by
    rcases h.prior with heq | ⟨heq, -⟩
    · exact heq
    · rw [hsettled] at heq
      cases heq
  have hblock' : (own ++ top :: below).head?.any Level.isBlock = true := by
    cases own with
    | nil => exact htop (by simpa [Level.isBlock] using hblock)
    | cons l own => exact hblock
  simp only [isFree, hlexer, hsame, hsettled, h.begun, hbegun, hlevels', hblock',
    beq_self_eq_true, Bool.and_self]

/-- A fixed text is taken in the same way, from within a token or behind an operand. -/
theorem like_takeText {r r' : Reader} (h : r.Like top below statements r')
    (htop : top.Holds statements) {lexer : Option Lexer} {o : Outline}
    (htake : takeText ⟨lexer, r⟩ cs = some (o, w)) :
    ∃ s', takeText ⟨lexer, r'⟩ cs = some (o, ⟨w.lexer, s'⟩) ∧
      w.reader.Like top below statements s' := by
  simp only [takeText] at htake ⊢
  split at htake
  · obtain ⟨x, hfollow, heq⟩ := Option.map_eq_some_iff.1 htake
    cases heq
    obtain ⟨s', hfollow', hs⟩ := like_follow h htop hfollow
    exact ⟨s', by simp [hfollow', of], hs⟩
  · cases htake
    exact ⟨r', rfl, h⟩
  · split at htake
    · rename_i hc
      obtain ⟨x, hfollow, heq⟩ := Option.map_eq_some_iff.1 htake
      cases heq
      obtain ⟨s', hfollow', hs⟩ := like_follow h htop hfollow
      exact ⟨s', by simp [hc, hfollow', of], hs⟩
    · cases htake

/-- Whatever is around a pattern, each part of it is taken in the same way. -/
theorem like_take {r r' : Reader} (h : r.Like top below statements r') (htop : top.Holds statements)
    {lexer : Option Lexer} {part : Part} {o : Outline}
    (htake : take ⟨lexer, r⟩ part = some (o, w)) :
    ∃ s', take ⟨lexer, r'⟩ part = some (o, ⟨w.lexer, s'⟩) ∧
      w.reader.Like top below statements s' := by
  cases part with
  | text cs => exact like_takeText h htop htake
  -- An operand asks whether a value, or a statement, may begin here, and both places agree on that.
  | expression =>
    simp only [take] at htake ⊢
    split at htake
    · rename_i hready
      cases htake
      exact ⟨{ r' with prior := .settled }, if_pos (isReady_of_like h hready),
        h.levels, h.begun, .inl rfl⟩
    · cases htake
  | script =>
    simp only [take] at htake ⊢
    split at htake
    · rename_i hfree
      cases htake
      exact ⟨r', if_pos (isFree_of_like h htop hfree), h⟩
    · cases htake
  -- Digits and strings are tokens, which the reader takes alike.
  | digits =>
    simp only [take] at htake ⊢
    split at htake
    · rename_i hport
      obtain ⟨x, hx, heq⟩ := Option.map_eq_some_iff.1 htake
      cases heq
      obtain ⟨s', hx', hs⟩ := h.take htop hx
      exact ⟨s', by simp [h.begun, hport, hx'], hs⟩
    · cases htake
  | quoted =>
    simp only [take] at htake ⊢
    split at htake
    · obtain ⟨x, hx, heq⟩ := Option.map_eq_some_iff.1 htake
      cases heq
      obtain ⟨s', hx', hs⟩ := h.run htop hx
      exact ⟨s', by simp [hx'], hs⟩
    · obtain ⟨x, hx, heq⟩ := Option.map_eq_some_iff.1 htake
      cases heq
      obtain ⟨s', hx', hs⟩ := h.run htop hx
      exact ⟨s', by simp [hx'], hs⟩
    · cases htake

theorem like_takeAll {r r' : Reader} (h : r.Like top below statements r')
    (htop : top.Holds statements) {lexer : Option Lexer} {parts : List Part} {o : Outline}
    (htake : takeAll ⟨lexer, r⟩ parts = some (o, w)) :
    ∃ s', takeAll ⟨lexer, r'⟩ parts = some (o, ⟨w.lexer, s'⟩) ∧
      w.reader.Like top below statements s' := by
  induction parts generalizing lexer r r' o with
  | nil =>
    cases htake
    exact ⟨r', rfl, h⟩
  | cons part parts ih =>
    obtain ⟨o₁, u, o₂, hfirst, hrest, rfl⟩ := exists_of_takeAll_cons htake
    obtain ⟨u', hfirst', hu⟩ := like_take h htop hfirst
    obtain ⟨s', hrest', hs⟩ := ih hu hrest
    refine ⟨s', ?_, hs⟩
    simp only [takeAll, hfirst', Option.bind_some, hrest', Option.map_some]

end Like

/-- The outline of a pattern of a value: read from behind an operator it has to come to the end of
one. -/
def valueOutline? (parts : List Part) : Option Outline :=
  (takeAll ⟨some .gap, ⟨[.around false], .operand, []⟩⟩ parts).bind fun x =>
    if (x.2.lexer = none ∨ x.2.lexer = some .gap) ∧
    x.2.reader = ⟨[.around false], .settled, []⟩ then
      some x.1
    else none

/-- The outline of a pattern of whole statements. -/
def statementsOutline? (parts : List Part) : Option Outline :=
  (takeAll ⟨some .gap, ⟨[.around true], .settled, []⟩⟩ parts).bind fun x =>
    if x.2 = ⟨some .gap, ⟨[.around true], .settled, []⟩⟩ then some x.1 else none

end Sight

section Fillings

variable {P : Prop} {s : String} {parts : List Part} {hs : List (List Sign)} {o : Outline}

open Sight

/-- What is read of a pattern of a value holds of every filling of it. -/
theorem isValue_of_pattern (h : Fits P s parts hs) (ho : valueOutline? parts = some o) :
    IsValue P s.toList (o.fill hs) := by
  intro top below prior hprior
  obtain ⟨⟨o', lexer, r⟩, htake, hend⟩ := Option.bind_eq_some_iff.1 ho
  dsimp only at hend
  split at hend
  · rename_i hsettled
    cases hend
    obtain ⟨hlexer, rfl⟩ := hsettled
    -- The outline was computed for a text on its own, and the reader goes on alike anywhere else.
    have hlike : Reader.Like top below false ⟨[.around false], .operand, []⟩
        ⟨top :: below, prior, []⟩ :=
      ⟨⟨[], rfl, rfl⟩, rfl, .inr ⟨rfl, hprior⟩⟩
    obtain ⟨r', htake', hr'⟩ := like_takeAll hlike (fun h => by cases h) htake
    rw [hr'.eq_of_settled] at htake'
    rcases leads_of_takeAll h (covers_self .gap _) htake' with
      ⟨es, q, pending, hfollow, hq, heq⟩ | hnone
    · refine .inl ⟨es, pending, q, hfollow, ?_, heq⟩
      -- The text may end in an operand, whose last token is then still open.
      rcases hlexer with rfl | rfl
      · exact hq
      · obtain ⟨rfl, rfl⟩ := hq
        rfl
    · exact .inr hnone
  · cases hend

/-- What is read of a pattern of statements holds of every filling of it. -/
theorem isStatements_of_pattern (h : Fits P s parts hs) (ho : statementsOutline? parts = some o) :
    IsStatements P s.toList (o.fill hs) := by
  intro top below htop
  obtain ⟨⟨o', v⟩, htake, hend⟩ := Option.bind_eq_some_iff.1 ho
  dsimp only at hend
  split at hend
  · rename_i hv
    cases hend
    subst hv
    have hlike : Reader.Like top below true ⟨[.around true], .settled, []⟩
        ⟨top :: below, .settled, []⟩ :=
      ⟨⟨[], rfl, rfl⟩, rfl, .inl rfl⟩
    obtain ⟨r', htake', hr'⟩ := like_takeAll hlike (fun _ => htop) htake
    rw [hr'.eq_of_settled] at htake'
    rcases leads_of_takeAll h (covers_self .gap _) htake' with
      ⟨es, q, pending, hfollow, hq, heq⟩ | hnone
    · obtain ⟨rfl, rfl⟩ := hq
      rw [List.append_nil, List.nil_append] at heq
      exact .inl (heq ▸ hfollow)
    · exact .inr hnone
  · cases hend

/-- A text without operands is a value if its tokens are. -/
theorem isValue_of_lex {cs : List Char} {ts : List Token} {es : List Sign}
    (hlex : lex cs = some ⟨ts, .between⟩)
    (hrun : Reader.run ⟨[.around false], .operand, []⟩ ts
      = some (es, ⟨[.around false], .settled, []⟩)) :
    IsValue P cs es := by
  intro top below prior hprior
  have hlike : Reader.Like top below false ⟨[.around false], .operand, []⟩
      ⟨top :: below, prior, []⟩ :=
    ⟨⟨[], rfl, rfl⟩, rfl, .inr ⟨rfl, hprior⟩⟩
  obtain ⟨r', hrun', hr'⟩ := hlike.run (fun h => by cases h) hrun
  rw [hr'.eq_of_settled] at hrun'
  obtain ⟨⟨front, q⟩, hfront, hend⟩ := Option.bind_eq_some_iff.1 hlex
  obtain ⟨⟨back, ending⟩, hback, heq⟩ := Option.map_eq_some_iff.1 hend
  cases heq
  rw [Reader.run_append] at hrun'
  obtain ⟨⟨es₁, r⟩, hes₁, hrest⟩ := Option.bind_eq_some_iff.1 hrun'
  obtain ⟨⟨es₂, r''⟩, hes₂, heq⟩ := Option.map_eq_some_iff.1 hrest
  cases heq
  refine .inl ⟨es₁, es₂, ⟨q, r⟩, ?_, ?_, rfl⟩
  · simp [Spot.follow, hfront, hes₁]
  · simp [Spot.settle, hback, hes₂]

end Fillings

end BlockLink.Lua
