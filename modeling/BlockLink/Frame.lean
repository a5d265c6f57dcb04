/-!
# `BlockLink/Frame.lean` — what is written to a board, and how writing fails

A frame is one write: a console line, or a step of an upload. While the board receives a file it
reads records, each a length byte and that many bytes, and a length of zero ends the file; so a
chunk is never empty on the wire, and the frames that end a file begin with a zero.
-/

set_option autoImplicit false

namespace BlockLink

/-- The UTF-8 bytes of a text. -/
def textBytes (s : String) : List UInt8 :=
  s.toUTF8.data.toList

/-- The text with the given UTF-8 bytes, if they are valid. -/
def bytesText? (bytes : List UInt8) : Option String :=
  String.fromUTF8? ⟨bytes.toArray⟩

/-- Something to write to a board. -/
inductive Frame where
  /-- Pokes the console until the board shows its prompt. -/
  | wakeUp
  /-- Makes the board receive a file. -/
  | uploadStart
  | chunk (data : List UInt8)
  /-- Ends the file and runs it. -/
  | trailer
  /-- Ends a file that is not complete and makes the board receive another. -/
  | restart
  | stopAll
  | suspendAll
  | resumeAll
  /-- A line of Lua for the console. -/
  | command (line : String)
  deriving DecidableEq, Repr

namespace Frame

/-- The file that a program is stored in on the board. -/
def autorunPath : String := "/sd/autorun.lua"

/-- The most bytes that one chunk can carry. -/
def maxChunkSize : Nat := 254

/-- The console line that makes the board receive a file. -/
def receiveLine : String := "\rio.receive(\"" ++ autorunPath ++ "\")\r"

/-- The console line that runs the file. -/
def runLine : String := "\r\ndofile(\"" ++ autorunPath ++ "\")\r\n"

/-- The bytes of a frame on the wire. -/
def toBytes : Frame → List UInt8
  | .wakeUp => textBytes "\r\n\r\n"
  | .uploadStart => textBytes receiveLine
  | .chunk data => UInt8.ofNat data.length :: data
  | .trailer => 0 :: textBytes runLine
  | .restart => 0 :: textBytes receiveLine
  | .stopAll => textBytes "thread.stop()\r\n"
  | .suspendAll => textBytes "thread.suspend()\r\n"
  | .resumeAll => textBytes "thread.resume()\r\n"
  | .command line => textBytes (line ++ "\r\n")

/-- Whether the board answers the frame with `C` before it takes anything else. -/
def expectsAck : Frame → Bool
  | .uploadStart | .restart | .chunk _ => true
  | _ => false

end Frame

/-- Why the link to a board fails. -/
inductive LinkError where
  /-- The port stayed busy for too many attempts. -/
  | writeContention (attempts : UInt32)
  /-- The board stopped acknowledging. -/
  | deviceUnresponsive
  /-- The connection is gone. -/
  | closed
  /-- The port itself failed. -/
  | io (detail : String)
  deriving DecidableEq, Repr

/-- The text of the error. -/
def LinkError.message : LinkError → String
  | .writeContention attempts =>
    "could not write to the board after " ++ Nat.repr attempts.toNat
      ++ " attempts. Please reset the board"
  | .deviceUnresponsive => "the board stopped responding"
  | .closed => "the connection to the board was closed"
  | .io detail => "serial error: " ++ detail

end BlockLink
