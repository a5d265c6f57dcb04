import BlockLink.Text.Quoted
import BlockLink.Unit

/-!
# `BlockLink/Program.lean` — the program a board is sent

A program declares one coroutine per unit, starts the units it was asked to start, and then resumes
every live coroutine in turn until none is left. The table of coroutines and the count of live ones
survive from one program to the next, so running a script again replaces its coroutine in place.

The fixed parts are texts of Lua. They are kept whole, because they are what a board runs.
-/

set_option autoImplicit false

namespace BlockLink.Program

open BlockLink.Text

/-- The mark in a program's first line that says which generator wrote it. It is computed from the
generator itself when that is built, so this is the mark of one build and every use takes it as a
parameter. -/
def fingerprint : String := "00b826e2"

/-- Creates the state that programs share, unless an earlier program did. -/
def stateInit : String :=
  "vars = vars or \x7b\x7d msg = msg or \x7b\x7d cfg = cfg or \x7b\x7d cfg.p = cfg.p or \x7b\x7d "
    ++ "cfg.a = cfg.a or \x7b\x7d cfg.w = cfg.w or \x7b\x7d cfg.s = cfg.s or \x7b\x7d"

/-- The functions that generated code calls. Lists are tables with their length in a field, and an
index out of range makes every list operation do nothing. -/
def helpers : String :=
  String.join
    ["function _r(v) local ok, e = c.resume(v) if not ok then print(e) end end\n",
     "function _s(v) if type(v) == \"table\" then local t = \x7b\x7d for i = 1, (v.length or "
       ++ "#v) do t[i] = _s(v[i]) end return table.concat(t, \",\") end return tostring(v) end\n",
     "function _d(v) if v == true or v == 1 then return 1 end return 0 end\n",
     "function _ix(l, i) if i == \"last\" then return l.length end if i == \"any\" or i == "
       ++ "\"random\" then if l.length < 1 then return nil end return math.random(l.length) end "
       ++ "local n = tonumber(i) if n == nil then return nil end return math.floor(n) end\n",
     "function _lg(l, i) if type(l) ~= \"table\" then return nil end i = _ix(l, i) if i == "
       ++ "nil or i < 1 or i > l.length then return nil end return l[i] end\n",
     "function _ll(l) if type(l) ~= \"table\" then return 0 end return l.length end\n",
     "function _lh(l, x) if type(l) ~= \"table\" then return false end for i = 1, l.length "
       ++ "do if l[i] == x then return true end end return false end\n",
     "function _la(l, x) if type(l) ~= \"table\" then return end l.length = l.length + 1 "
       ++ "l[l.length] = x end\n",
     "function _ld(l, i) if type(l) ~= \"table\" then return end if i == \"all\" then for k "
       ++ "= 1, l.length do l[k] = nil end l.length = 0 return end i = _ix(l, i) if i == nil or i "
       ++ "< 1 or i > l.length then return end for k = i, l.length - 1 do l[k] = l[k + 1] end "
       ++ "l[l.length] = nil l.length = l.length - 1 end\n",
     "function _li(l, i, x) if type(l) ~= \"table\" then return end i = _ix(l, i) if i == "
       ++ "nil or i < 1 or i > l.length then return end for k = l.length, i, -1 do l[k + 1] = "
       ++ "l[k] end l[i] = x l.length = l.length + 1 end\n",
     "function _lr(l, i, x) if type(l) ~= \"table\" then return end i = _ix(l, i) if i == "
       ++ "nil or i < 1 or i > l.length then return end l[i] = x end\n",
     "function _ms(t) if not cfg.s[t] then cfg.m:subscribe(t, mqtt.QOS0, function(l, p) for "
       ++ "_, e in pairs(msg) do if e.t == t then e.f(p) end end end) cfg.s[t] = true end end\n"]

/-- Resumes every live coroutine until all are dead, and reports each death. -/
def trampoline : String :=
  "while cn > 0 do\n"
    ++ "for k, v in pairs(cr) do if c.status(v) ~= \"dead\" then _r(v) "
    ++ "else print(\"dc:\" .. k .. \":\") cr[k] = nil cn = cn - 1 end end\n"
    ++ "end\n"

/-- Everything in front of the declarations of a program. -/
def preamble (mark : String := fingerprint) : String :=
  "-- wc:" ++ mark ++ "\nc = coroutine\nif cr == nil then cr = \x7b\x7d cn = 0 end\n"
    ++ stateInit ++ "\n" ++ helpers

/-- The global that holds the coroutine of a unit. -/
def coroutineName (id : UnitId) : String :=
  "c" ++ wordText id

/-- Declares the coroutine of a unit. -/
def declare {Origin : Type} (u : CompiledUnit Origin) : String :=
  coroutineName u.id ++ " = c.create(function() print(\"rc:" ++ wordText u.id
    ++ ":\")\n" ++ u.source
    ++ "end)\n"

/-- Starts a unit, in place of one that runs under the same id. -/
def start (id : UnitId) : String :=
  "if cr[" ++ wordText id ++ "] == nil then cn = cn + 1 end cr[" ++ wordText id ++ "] = "
    ++ coroutineName id ++ " _r(" ++ coroutineName id ++ ")\n"

/-- The program that declares the given units and starts those with the given ids. -/
def build {Origin : Type} (units : List (CompiledUnit Origin)) (toStart : List UnitId)
    (mark : String := fingerprint) : String :=
  preamble mark ++ String.join (units.map declare) ++ String.join (toStart.map start) ++ trampoline

/-- Whether a text has a line break in it. -/
def hasLineBreak (s : String) : Bool :=
  s.toList.any fun c => c == '\r' || c == '\n'

/-- The console line that evaluates an expression and reports its value. It works before any
program has been sent, and an expression of several lines goes as one quoted text. -/
def adhocCommand (expression : String) : String :=
  let e := if hasLineBreak expression then "load(" ++ quote ("return " ++ expression) ++ ")()"
    else expression
  stateInit ++ " print(\"pb:r:\" .. (_s or tostring)(" ++ e ++ "))"

end BlockLink.Program
