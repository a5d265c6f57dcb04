import BlockLink.Compile.Chain
import BlockLink.Registry

/-!
# `BlockLink/Session/Compile.lean` — compiling several scripts at once

The scripts of one request are compiled in order, each under its id, and share the diagnostics. The
pins are forgotten between scripts. If one of them fails, the ids that were handed out for this
request are released again.
-/

set_option autoImplicit false

namespace BlockLink

variable {Origin : Type}

/-- What comes of compiling scripts: their units or the script that failed and why, the registry
with their ids, and the state of the compiler. -/
structure CompiledScripts (Origin : Type) where
  result : Except (Origin × CompileError) (List (CompiledUnit Origin))
  registry : Registry Origin
  state : CompileState

variable [DecidableEq Origin]

/-- Releases the ids of scripts. -/
def Registry.freeOrigins (r : Registry Origin) (origins : List Origin) : Registry Origin :=
  origins.foldl (fun r o => (r.freeOrigin o).2) r

/-- Compiles scripts in order; `fresh` are those that got their id in this request. -/
def compileScripts (board : Board) (yields : Bool) :
    List (Origin × Block) → List Origin → Registry Origin → CompileState → CompiledScripts Origin
  | [], _, registry, state => ⟨.ok [], registry, state⟩
  | (origin, block) :: rest, fresh, registry, state =>
    let fresh := if (registry.idOf origin).isNone then fresh ++ [origin] else fresh
    let (id, registry) := registry.assign origin
    match block.compileFrom board ⟨.id id, yields⟩ state.forgetPins with
    | (.error e, state) => ⟨.error (origin, e), registry.freeOrigins fresh, state⟩
    | (.ok source, state) =>
      let later := compileScripts board yields rest fresh registry state
      { later with result := later.result.map (⟨id, source, origin⟩ :: ·) }

end BlockLink
