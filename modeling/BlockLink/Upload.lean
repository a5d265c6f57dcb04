import BlockLink.Frame

/-!
# `BlockLink/Upload.lean` — sending a program chunk by chunk

The board acknowledges each step of an upload with `C`, and the next step is handed out only then.
While a file is being received the board would take anything else for part of it, so a program that
comes during an upload waits: at the next `C` the partial file is ended without being run and the
waiting program is sent from the start. A program that is being sent, or was sent last, is skipped.
-/

set_option autoImplicit false

namespace BlockLink

/-- A list cut into pieces of the given size, the last one perhaps shorter. Size zero counts as
one. -/
def chunksOf {α : Type} (size : Nat) : List α → List (List α)
  | [] => []
  | a :: rest => (a :: rest.take (size - 1)) :: chunksOf size (rest.drop (size - 1))
termination_by l => l.length
decreasing_by simp only [List.length_drop, List.length_cons]; omega

/-- A program on its way to the board. -/
structure Transfer where
  program : String
  /-- The chunks that are still to be sent. -/
  pending : List (List UInt8)
  deriving DecidableEq, Repr

/-- A program cut into chunks. -/
def Transfer.ofProgram (program : String) (chunkSize : Nat) : Transfer :=
  ⟨program, chunksOf chunkSize (textBytes program)⟩

/-- What comes of sending a program. -/
inductive SendStatus where
  /-- The board has the program or is receiving it. -/
  | skipped
  /-- The upload begins with `Frame.uploadStart`. -/
  | started (chunks : Nat)
  /-- The program takes over at the board's next `C`. -/
  | queued (chunks : Nat)
  deriving DecidableEq, Repr

/-- The state of uploading. -/
structure Upload where
  chunkSize : Nat
  current : Option Transfer
  queued : Option Transfer
  /-- The program that was last sent in full. -/
  lastSent : Option String
  deriving DecidableEq, Repr

namespace Upload

/-- Nothing sent. The size of chunks is brought into the range a frame can carry. -/
def new (chunkSize : Nat) : Upload :=
  ⟨max 1 (min chunkSize Frame.maxChunkSize), none, none, none⟩

/-- Whether a program is on its way. -/
def isUploading (u : Upload) : Bool :=
  u.current.isSome

/-- Sends a program, unless the board has it or is receiving it. -/
def send (u : Upload) (program : String) : SendStatus × Upload :=
  let transfer := Transfer.ofProgram program u.chunkSize
  match u.current with
  | some t =>
    if t.program = program then (.skipped, { u with queued := none })
    else (.queued transfer.pending.length, { u with queued := some transfer })
  | none =>
    if u.lastSent = some program then (.skipped, u)
    else (.started transfer.pending.length, { u with current := some transfer })

/-- The board asked for the next step of the upload. -/
def chunkReady (u : Upload) : Option Frame × Upload :=
  match u.current with
  | none => (none, u)
  | some t =>
    match u.queued with
    | some next => (some .restart, { u with current := some next, queued := none })
    | none =>
      match t.pending with
      | chunk :: rest =>
        (some (.chunk chunk), { u with current := some { t with pending := rest } })
      | [] => (some .trailer, { u with current := none, lastSent := some t.program })

/-- Abandons the upload and forgets what was sent. -/
def forget (u : Upload) : Upload :=
  { u with current := none, queued := none, lastSent := none }

/-- Forgets what was sent; an upload goes on. -/
def forgetSent (u : Upload) : Upload :=
  { u with lastSent := none }

/-- Abandons the upload; what was sent in full is remembered. -/
def cancel (u : Upload) : Upload :=
  { u with current := none, queued := none }

/-! ## Running an upload to its end -/

/-- How many more times the board has to ask until the upload is over. -/
def stepsLeft (u : Upload) : Nat :=
  match u.current, u.queued with
  | none, _ => 0
  | some t, none => t.pending.length + 1
  | some _, some next => next.pending.length + 2

/-- The frames handed out when the board asks a number of times. -/
def drainFor : Nat → Upload → List Frame × Upload
  | 0, u => ([], u)
  | n + 1, u =>
    match u.chunkReady with
    | (none, u) => ([], u)
    | (some frame, u) =>
      let (frames, u) := drainFor n u
      (frame :: frames, u)

/-- The frames handed out when the board asks until the upload is over. -/
def drain (u : Upload) : List Frame × Upload :=
  drainFor u.stepsLeft u

end Upload

end BlockLink
