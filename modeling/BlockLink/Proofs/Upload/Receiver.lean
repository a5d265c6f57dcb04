import BlockLink.Frame

/-!
# `BlockLink/Proofs/Upload/Receiver.lean` — the board's end of an upload

A board has a console, and the console line `io.receive` turns it into a receiver of records: a
length byte, then that many bytes of the file, and a length of zero ends the file and gives the line
back to the console. The console line `dofile` runs the file that was received last.

`Receiver.feed` reads bytes one at a time and knows nothing of frames. The lemmas of this module say
what the bytes of each frame of an upload do to a receiver that stands where the frame expects it.
-/

set_option autoImplicit false

namespace BlockLink

/-- A board as seen from the line. -/
structure Receiver where
  /-- What the console has read since it last did something. -/
  console : List UInt8
  receiving : Bool
  /-- How many bytes of the present record are still to come. -/
  remaining : Nat
  /-- What has been received of the present file. -/
  file : List UInt8
  /-- The file that was received last. -/
  stored : Option (List UInt8)
  /-- The files that were run, in order. -/
  ran : List (List UInt8)
  deriving DecidableEq, Repr

namespace Receiver

/-- A board that was just switched on. -/
def fresh : Receiver := ⟨[], false, 0, [], none, []⟩

/-- The console line that makes the board receive a file. -/
def receiveCommand : List UInt8 :=
  textBytes ("io.receive(\"" ++ Frame.autorunPath ++ "\")\r")

/-- The console line that makes the board run the file. -/
def runCommand : List UInt8 :=
  textBytes ("dofile(\"" ++ Frame.autorunPath ++ "\")\r\n")

/-- The console reads a byte, and acts when that completes one of the two lines it knows. -/
def type (b : Receiver) (byte : UInt8) : Receiver :=
  let console := b.console ++ [byte]
  if receiveCommand.isSuffixOf console then { b with console := [], receiving := true, file := [] }
  else if runCommand.isSuffixOf console then
    { b with console := [], ran := b.ran ++ b.stored.toList }
  else { b with console }

/-- The board reads a byte: of a record, the length of a record, or of a console line. -/
def take (b : Receiver) (byte : UInt8) : Receiver :=
  if 0 < b.remaining then { b with file := b.file ++ [byte], remaining := b.remaining - 1 }
  else if b.receiving then
    if byte = 0 then { b with receiving := false, file := [], stored := some b.file }
    else { b with remaining := byte.toNat }
  else b.type byte

/-- The board reads bytes in order. -/
def feed (b : Receiver) (bytes : List UInt8) : Receiver :=
  bytes.foldl take b

/-- The next byte is the length of a record. -/
def AtRecord (b : Receiver) : Prop :=
  b.receiving = true ∧ b.remaining = 0

/-- The next byte goes to the console. -/
def AtConsole (b : Receiver) : Prop :=
  b.receiving = false ∧ b.remaining = 0

theorem feed_nil (b : Receiver) : b.feed [] = b := rfl

theorem feed_cons (b : Receiver) (byte : UInt8) (bytes : List UInt8) :
    b.feed (byte :: bytes) = (b.take byte).feed bytes := rfl

theorem feed_append (b : Receiver) (xs ys : List UInt8) :
    b.feed (xs ++ ys) = (b.feed xs).feed ys :=
  List.foldl_append

/-! ## Records -/

/-- As many bytes as a record has left all go to the file. -/
theorem feed_payload {b : Receiver} {data : List UInt8} (h : b.remaining = data.length) :
    b.feed data = { b with file := b.file ++ data, remaining := 0 } := by
  induction data generalizing b with
  | nil =>
    obtain ⟨_, _, _, _, _, _⟩ := b
    simp only [List.length_nil] at h
    simp [feed_nil, h]
  | cons byte rest ih =>
    have hpos : 0 < b.remaining := by rw [h]; exact Nat.succ_pos _
    have htake : b.take byte
        = { b with file := b.file ++ [byte], remaining := rest.length } := by
      rw [take, if_pos hpos, h, List.length_cons, Nat.add_sub_cancel]
    rw [feed_cons, htake, ih rfl]
    simp

theorem feed_chunk {b : Receiver} (hb : b.AtRecord) {data : List UInt8} (hpos : 0 < data.length)
    (hlt : data.length < 256) :
    b.feed (Frame.chunk data).toBytes = { b with file := b.file ++ data } := by
  obtain ⟨hrec, hrem⟩ := hb
  have hlen : (UInt8.ofNat data.length).toNat = data.length := by
    rw [UInt8.toNat_ofNat']
    exact Nat.mod_eq_of_lt hlt
  have hne : UInt8.ofNat data.length ≠ 0 := by
    intro h0
    rw [h0] at hlen
    exact absurd hlen (by simp only [UInt8.toNat_zero]; omega)
  have htake : b.take (UInt8.ofNat data.length) = { b with remaining := data.length } := by
    rw [take, if_neg (by omega), if_pos hrec, if_neg hne, hlen]
  rw [Frame.toBytes, feed_cons, htake, feed_payload rfl, hrem]

theorem take_zero {b : Receiver} (hb : b.AtRecord) :
    b.take 0 = { b with receiving := false, file := [], stored := some b.file } := by
  obtain ⟨hrec, hrem⟩ := hb
  rw [take, if_neg (by omega), if_pos hrec, if_pos rfl]

/-! ## Console lines

Between frames the console has nothing pending, and the two lines are closed texts. Neither of them
completes a command before its last byte, which is a computation (`silent`). -/

/-- What the console has read completes no command. -/
def silent (console : List UInt8) : Bool :=
  !receiveCommand.isSuffixOf console && !runCommand.isSuffixOf console

theorem type_silent {b : Receiver} {byte : UInt8} (h : silent (b.console ++ [byte]) = true) :
    b.type byte = { b with console := b.console ++ [byte] } := by
  simp only [silent, Bool.and_eq_true, Bool.not_eq_true'] at h
  simp [type, h.1, h.2]

theorem feed_silent {b : Receiver} (hb : b.AtConsole) {line : List UInt8}
    (h : ∀ n < line.length, silent (b.console ++ line.take (n + 1)) = true) :
    b.feed line = { b with console := b.console ++ line } := by
  induction line generalizing b with
  | nil => simp [feed_nil]
  | cons byte rest ih =>
    have hfirst : silent (b.console ++ [byte]) = true := h 0 (Nat.succ_pos _)
    have htake : b.take byte = { b with console := b.console ++ [byte] } := by
      rw [take, if_neg (by simp [hb.2]), if_neg (by simp [hb.1]), type_silent hfirst]
    have hat : AtConsole { b with console := b.console ++ [byte] } := hb
    rw [feed_cons, htake, ih hat]
    · simp
    · intro n hn
      have hnext := h (n + 1) (Nat.succ_lt_succ hn)
      simpa using hnext

theorem feed_line {b : Receiver} (hb : b.AtConsole) (hc : b.console = []) {line : List UInt8}
    (h : ∀ n < line.length, silent (line.take (n + 1)) = true) (last : UInt8) :
    b.feed (line ++ [last]) = type { b with console := line } last := by
  rw [feed_append, feed_silent hb (by simpa [hc] using h), hc, List.nil_append, feed_cons, feed_nil,
    take, if_neg (by simp [hb.2]), if_neg (by simp [hb.1])]

theorem feed_receiveLine {b : Receiver} (hb : b.AtConsole) (hc : b.console = []) :
    b.feed (textBytes Frame.receiveLine) = { b with receiving := true, file := [] } := by
  let line := (textBytes Frame.receiveLine).dropLast
  have hsplit : textBytes Frame.receiveLine = line ++ [13] := by decide +kernel
  have hquiet : ∀ n < line.length, silent (line.take (n + 1)) = true := by decide +kernel
  have hdone : receiveCommand.isSuffixOf (line ++ [13]) = true := by decide +kernel
  rw [hsplit, feed_line hb hc hquiet, type, if_pos hdone, hc]

theorem feed_runLine {b : Receiver} (hb : b.AtConsole) (hc : b.console = []) :
    b.feed (textBytes Frame.runLine) = { b with ran := b.ran ++ b.stored.toList } := by
  let line := (textBytes Frame.runLine).dropLast
  have hsplit : textBytes Frame.runLine = line ++ [10] := by decide +kernel
  have hquiet : ∀ n < line.length, silent (line.take (n + 1)) = true := by decide +kernel
  have hdone : runCommand.isSuffixOf (line ++ [10]) = true := by decide +kernel
  have hother : receiveCommand.isSuffixOf (line ++ [10]) ≠ true := by decide +kernel
  rw [hsplit, feed_line hb hc hquiet, type, if_neg hother, if_pos hdone, hc]

/-! ## Frames -/

theorem feed_uploadStart {b : Receiver} (hb : b.AtConsole) (hc : b.console = []) :
    b.feed Frame.uploadStart.toBytes = { b with receiving := true, file := [] } :=
  feed_receiveLine hb hc

theorem feed_restart {b : Receiver} (hb : b.AtRecord) (hc : b.console = []) :
    b.feed Frame.restart.toBytes = { b with file := [], stored := some b.file } := by
  have hat : AtConsole { b with receiving := false, file := [], stored := some b.file } :=
    ⟨rfl, hb.2⟩
  rw [Frame.toBytes, feed_cons, take_zero hb, feed_receiveLine hat hc, hb.1]

theorem feed_trailer {b : Receiver} (hb : b.AtRecord) (hc : b.console = []) :
    b.feed Frame.trailer.toBytes = { b with
      receiving := false, file := [], stored := some b.file, ran := b.ran ++ [b.file] } := by
  have hat : AtConsole { b with receiving := false, file := [], stored := some b.file } :=
    ⟨rfl, hb.2⟩
  rw [Frame.toBytes, feed_cons, take_zero hb, feed_runLine hat hc, Option.toList_some]

end Receiver

end BlockLink
