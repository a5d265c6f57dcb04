import BlockLink.Session.Basic

/-!
# `BlockLink/Link/Request.lean` — what the editor asks a link to do
-/

set_option autoImplicit false

namespace BlockLink

/-- Something the editor asks for. -/
inductive Request (Origin : Type) where
  /-- Compile and start scripts; the others stay. -/
  | run (scripts : List (Origin × Block))
  /-- Evaluate a clicked reporter. -/
  | evaluate (origin : Origin) (block : Block)
  | stopAll
  | suspendAll
  | resumeAll
  /-- A script was deleted. -/
  | removeChain (origin : Origin)
  /-- A line of Lua for the board's console. -/
  | raw (line : String)

namespace Session

variable {Origin : Type} [DecidableEq Origin]

/-- Handles a request. A request that fails to compile has no frame. -/
def handleRequest (s : Session Origin) : Request Origin → Reply Origin (Option Frame)
  | .run scripts =>
    let r := s.run scripts
    ⟨r.result.toOption.join, r.shown, r.session⟩
  | .evaluate origin block =>
    let r := s.evaluate origin block
    ⟨r.result.toOption, r.shown, r.session⟩
  | .stopAll => { s.stopAll with result := some s.stopAll.result }
  | .suspendAll => { s.suspendAll with result := some s.suspendAll.result }
  | .resumeAll => { s.resumeAll with result := some s.resumeAll.result }
  | .removeChain origin =>
    let (shown, s) := s.removeChain origin
    ⟨none, shown, s⟩
  | .raw line => ⟨some (.command line), [], s⟩

end Session

end BlockLink
