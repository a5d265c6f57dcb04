import BlockLink.Proofs.Lua.ShortString
import BlockLink.Proofs.Session.Operation

/-!
# `BlockLink/Proofs/Session/Evaluation.lean` — a clicked reporter is one console line

The console takes what it is sent up to the end of the line, so an expression with line breaks in it
would be cut into pieces. Such an expression is sent as a string that is loaded on the board.
Quoting leaves no line break, and the board's string reader gives back the expression as it was.
-/

set_option autoImplicit false

namespace BlockLink

open BlockLink.Text BlockLink.Lua

namespace Program

/-! ## Line breaks -/

theorem hasLineBreak_eq_true_iff {s : String} :
    hasLineBreak s = true ↔ '\r' ∈ s.toList ∨ '\n' ∈ s.toList := by
  simp only [hasLineBreak, List.any_eq_true, Bool.or_eq_true, beq_iff_eq]
  constructor
  · rintro ⟨c, hc, rfl | rfl⟩
    · exact Or.inl hc
    · exact Or.inr hc
  · rintro (hc | hc)
    · exact ⟨_, hc, Or.inl rfl⟩
    · exact ⟨_, hc, Or.inr rfl⟩

theorem oneLine_append {s t : String} (hs : hasLineBreak s = false) (ht : hasLineBreak t = false) :
    hasLineBreak (s ++ t) = false := by
  rw [hasLineBreak, String.toList_append, List.any_append, Bool.or_eq_false_iff]
  exact ⟨hs, ht⟩

theorem oneLine_ofList {cs : List Char} (h : (cs.any fun c => c == '\r' || c == '\n') = false) :
    hasLineBreak (String.ofList cs) = false := by
  rw [hasLineBreak, String.toList_ofList]
  exact h

theorem oneLine_quote (s : String) : hasLineBreak (quote s) = false := by
  rw [Bool.eq_false_iff, ne_eq, hasLineBreak_eq_true_iff]
  rintro (hc | hc)
  · cases isPrinted_of_mem_quote hc
  · cases isPrinted_of_mem_quote hc

/-! ## The line -/

/-- What stands in front of the expression. -/
def adhocFront : String :=
  stateInit ++ " print(\"pb:r:\" .. (_s or tostring)("

theorem adhocCommand_of_oneLine {e : String} (h : hasLineBreak e = false) :
    adhocCommand e = adhocFront ++ e ++ "))" := by
  rw [adhocCommand, h]
  rfl

theorem adhocCommand_of_lineBreak {e : String} (h : hasLineBreak e = true) :
    adhocCommand e = adhocFront ++ ("load(" ++ quote ("return " ++ e) ++ ")()") ++ "))" := by
  rw [adhocCommand, h]
  rfl

theorem oneLine_adhocFront : hasLineBreak adhocFront = false :=
  oneLine_append (oneLine_append (oneLine_ofList rfl) (oneLine_ofList rfl)) (oneLine_ofList rfl)

theorem oneLine_adhocCommand (e : String) : hasLineBreak (adhocCommand e) = false := by
  have hback : hasLineBreak "))" = false := oneLine_ofList rfl
  cases he : hasLineBreak e with
  | false =>
    rw [adhocCommand_of_oneLine he]
    exact oneLine_append (oneLine_append oneLine_adhocFront he) hback
  | true =>
    rw [adhocCommand_of_lineBreak he]
    have hload : hasLineBreak ("load(" ++ quote ("return " ++ e) ++ ")()") = false :=
      oneLine_append (oneLine_append (oneLine_ofList rfl) (oneLine_quote _)) (oneLine_ofList rfl)
    exact oneLine_append (oneLine_append oneLine_adhocFront hload) hback

end Program

open Program

/-- A text without line breaks is sent as one line. -/
theorem Frame.toBytes_command {line : String} (h : hasLineBreak line = false) :
    (Frame.command line).toBytes = textBytes line ++ [13, 10] ∧
      13 ∉ textBytes line ∧ 10 ∉ textBytes line := by
  have hend : textBytes "\r\n" = [13, 10] := by decide +kernel
  rw [Bool.eq_false_iff, ne_eq, hasLineBreak_eq_true_iff, not_or] at h
  refine ⟨?_, ?_, ?_⟩
  · rw [Frame.toBytes, textBytes_append, hend]
  · exact fun hmem => h.1 ((mem_textBytes_iff (by decide)).mp hmem)
  · exact fun hmem => h.2 ((mem_textBytes_iff (by decide)).mp hmem)

namespace Session

variable {Origin : Type} {s : Session Origin} {origin : Origin} {block : Block} {frame : Frame}

/-- Evaluating succeeds exactly if the block reports and compiles, and sends its expression. -/
theorem evaluate_eq_ok_iff :
    (s.evaluate origin block).result = .ok frame ↔
      block.reports = true ∧ ∃ e, (block.compileFrom s.board ⟨.adhoc, false⟩ .initial).1 = .ok e ∧
        frame = .command (adhocCommand e) := by
  cases hreports : block.reports with
  | false => simp [evaluate, hreports]
  | true =>
    cases hcompile : block.compileFrom s.board ⟨.adhoc, false⟩ .initial with
    | mk compiled state =>
      cases compiled with
      | error e => simp [evaluate, hreports, hcompile]
      | ok e => simp [evaluate, hreports, hcompile, eq_comm]

/-- An evaluation is sent as one line: the bytes of a command, without a line break in them, and one
behind them. An expression of one line stands in the command as it is; one with line breaks goes to
`load` in a string that is read as `return` and the expression. -/
theorem evaluation_is_one_line (h : (s.evaluate origin block).result = .ok frame) :
    (∃ line, frame = .command line ∧ frame.toBytes = textBytes line ++ [13, 10] ∧
      13 ∉ textBytes line ∧ 10 ∉ textBytes line) ∧
      ∃ e, (block.compileFrom s.board ⟨.adhoc, false⟩ .initial).1 = .ok e ∧
        ('\r' ∉ e.toList ∧ '\n' ∉ e.toList → frame = .command (adhocFront ++ e ++ "))")) ∧
        ('\r' ∈ e.toList ∨ '\n' ∈ e.toList → ∃ argument,
          frame = .command (adhocFront ++ "load(" ++ argument) ∧
            readString? argument.toList = some (textBytes ("return " ++ e), ")()))".toList)) := by
  obtain ⟨-, e, he, rfl⟩ := evaluate_eq_ok_iff.mp h
  refine ⟨⟨_, rfl, Frame.toBytes_command (oneLine_adhocCommand e)⟩, e, he, ?_, ?_⟩
  · intro hnone
    rw [← not_or, ← hasLineBreak_eq_true_iff, Bool.not_eq_true] at hnone
    rw [adhocCommand_of_oneLine hnone]
  · intro hsome
    rw [← hasLineBreak_eq_true_iff] at hsome
    refine ⟨quote ("return " ++ e) ++ ")()))", ?_, ?_⟩
    · have hclose : ")()" ++ "))" = ")()))" := rfl
      rw [adhocCommand_of_lineBreak hsome, ← hclose]
      simp only [String.append_assoc]
    · rw [String.toList_append, readString?_quote]

/-- Raw code in a script: a comment and a line break of its own, and a text beyond ASCII. -/
theorem evaluation_is_one_line_raw :
    let raw : Block := .mk "runLua" .command [.literal "-- one\r\nreturn '\"é'"] none
    let block : Block := .mk "reifyScript" .reporter [.script (some raw)] none
    let e := "(function()\ndo local f = (function() -- one\r\nreturn '\"é' end)() if f ~= nil then "
      ++ "print(\"pb:r:\" .. _s(f)) end end\nend)"
    ∃ frame, ((new .blank {} : Session Nat).evaluate 1 block).result = .ok frame ∧
      (∃ line, frame = .command line ∧ frame.toBytes = textBytes line ++ [13, 10] ∧
        13 ∉ textBytes line ∧ 10 ∉ textBytes line) ∧
      (block.compileFrom .blank ⟨.adhoc, false⟩ .initial).1 = .ok e ∧
      ∃ argument, frame = .command (adhocFront ++ "load(" ++ argument) ∧
        readString? argument.toList = some (textBytes ("return " ++ e), ")()))".toList) := by
  intro raw block e
  have he : (block.compileFrom .blank ⟨.adhoc, false⟩ .initial).1 = .ok e := rfl
  have hframe : ((new .blank {} : Session Nat).evaluate 1 block).result
      = .ok (.command (adhocCommand e)) :=
    evaluate_eq_ok_iff.mpr ⟨rfl, e, he, rfl⟩
  obtain ⟨hline, e', he', -, hload⟩ := evaluation_is_one_line hframe
  obtain rfl : e = e' := Except.ok.inj (he.symm.trans he')
  exact ⟨_, hframe, hline, he, hload (Or.inl (by decide +kernel))⟩

end Session

end BlockLink
