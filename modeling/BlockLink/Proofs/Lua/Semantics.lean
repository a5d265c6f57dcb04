import BlockLink.Text.Quoted
import Mathlib.Logic.Function.Basic

/-!
# `BlockLink/Proofs/Lua/Semantics.lean` — running a piece of Lua

The part of Lua in which the functions that keep lists are written: tables, comparisons, local
variables, `if`, loops that count up or down by one, and calls of functions that were defined
earlier. A syntax tree has a text, which is how it stands in a program, and a meaning, which is what
it does to the tables.

There is no result where Lua raises an error, and none where it does something that is not described
here: reading a global variable, `math.random`, or `type` of a value that is not looked into.
-/

set_option autoImplicit false

namespace BlockLink.Lua

/-! ## Values and tables -/

/-- A value. Integers have 64 bits, a table is known by its address, and numbers with a fraction,
functions and the like are among the others. -/
inductive Value (α : Type) where
  | nil
  | boolean (b : Bool)
  | integer (n : Int64)
  | string (s : String)
  | table (ref : Nat)
  | other (a : α)
  deriving DecidableEq

/-- The tables at their addresses: what each holds at every key, `nil` where it holds nothing. -/
abbrev Heap (α : Type) := Nat → Value α → Value α

/-- The local variables in scope, the innermost first. -/
abbrev Locals (α : Type) := List (String × Value α)

variable {α : Type}

namespace Value

/-- Whether a condition with this value holds. -/
def isTrue : Value α → Bool
  | nil => false
  | boolean b => b
  | _ => true

/-- The integer that a value is. There is no conversion of texts. -/
def integer? : Value α → Option Int64
  | integer n => some n
  | _ => none

/-- What stands in a table at a key. -/
def index (heap : Heap α) : Value α → Value α → Option (Value α)
  | table ref, key => some (heap ref key)
  | _, _ => none

/-- The tables after a value was put into one of them. -/
def store [DecidableEq α] (heap : Heap α) : Value α → Value α → Value α → Option (Heap α)
  | table _, nil, _ => none
  | table ref, key, v => some (Function.update heap ref (Function.update (heap ref) key v))
  | _, _, _ => none

end Value

/-- Gives a new value to the innermost variable of a name. -/
def Locals.assign (x : String) (v : Value α) : Locals α → Option (Locals α)
  | [] => none
  | (y, w) :: rest => if x = y then some ((y, v) :: rest) else (assign x v rest).map ((y, w) :: ·)

/-! ## Syntax -/

/-- The operators that take the values of both sides. -/
inductive Operator where
  | equal
  | differs
  | less
  | greater
  | plus
  | minus

/-- The library functions that take one argument. -/
inductive Library where
  | type
  | tonumber
  | floor
  | random

/-- Expressions. Only `or` decides by its left side whether it looks at the right one. -/
inductive Expr where
  | nil
  | boolean (b : Bool)
  | numeral (n : Nat)
  | string (s : String)
  | name (x : String)
  | index (t key : Expr)
  | binary (op : Operator) (a b : Expr)
  | either (a b : Expr)
  | call (f : Library) (a : Expr)

/-- The way a loop counts. -/
inductive Direction where
  | up
  | down

/-- Statements. A loop counts up or down by one. -/
inductive Stat where
  | declare (x : String) (e : Expr)
  | assignCall (x f : String) (args : List Expr)
  | store (t key e : Expr)
  | cond (c : Expr) (body : List Stat)
  | loop (x : String) (first last : Expr) (way : Direction) (body : List Stat)
  | ret (e : Option Expr)

/-- A global function. -/
structure Definition where
  name : String
  params : List String
  body : List Stat

/-! ## Text

The texts are those that stand in a program, character by character, with brackets only where the
operators need them. -/

def Operator.text : Operator → String
  | equal => "=="
  | differs => "~="
  | less => "<"
  | greater => ">"
  | plus => "+"
  | minus => "-"

/-- How tightly an operator binds. `or` is at level zero. -/
def Operator.level : Operator → Nat
  | plus | minus => 2
  | _ => 1

def Library.text : Library → String
  | type => "type"
  | tonumber => "tonumber"
  | floor => "math.floor"
  | random => "math.random"

/-- Text in brackets, if it needs them. -/
def bracketed (needed : Bool) (s : String) : String :=
  if needed then "(" ++ s ++ ")" else s

/-- The text of an expression where at least the given level stands without brackets. All operators
group to the left, and the index by a name is written with a dot. -/
def Expr.text (level : Nat) : Expr → String
  | nil => "nil"
  | boolean b => if b then "true" else "false"
  | numeral n => toString n
  | string s => Text.quote s
  | name x => x
  | index t key =>
    t.text 3 ++ match key with
      | string s => "." ++ s
      | _ => "[" ++ key.text 0 ++ "]"
  | binary op a b =>
    bracketed (op.level < level) (a.text op.level ++ " " ++ op.text ++ " " ++ b.text (op.level + 1))
  | either a b => bracketed (0 < level) (a.text 0 ++ " or " ++ b.text 1)
  | call f a => f.text ++ "(" ++ a.text 0 ++ ")"

def Direction.text : Direction → String
  | up => ""
  | down => ", -1"

mutual

def Stat.text : Stat → String
  | .declare x e => "local " ++ x ++ " = " ++ e.text 0
  | .assignCall x f args =>
    x ++ " = " ++ f ++ "(" ++ ", ".intercalate (args.map (Expr.text 0)) ++ ")"
  | .store t key e => (Expr.index t key).text 0 ++ " = " ++ e.text 0
  | .cond c body => "if " ++ c.text 0 ++ " then " ++ Stat.textOfAll body ++ "end"
  | .loop x first last way body =>
    "for " ++ x ++ " = " ++ first.text 0 ++ ", " ++ last.text 0 ++ way.text ++ " do "
      ++ Stat.textOfAll body ++ "end"
  | .ret none => "return"
  | .ret (some e) => "return " ++ e.text 0

/-- Statements with a blank behind each. -/
def Stat.textOfAll : List Stat → String
  | [] => ""
  | s :: rest => s.text ++ " " ++ Stat.textOfAll rest

end

def Definition.text (f : Definition) : String :=
  "function " ++ f.name ++ "(" ++ ", ".intercalate f.params ++ ") " ++ Stat.textOfAll f.body
    ++ "end\n"

/-! ## Meaning

The functions are run one statement after another. Recursion of functions is left out: each calls
only those that were defined before it, which is why running them ends. -/

/-- Library functions, as far as they are looked into. -/
def Library.apply : Library → Value α → Option (Value α)
  | type, .nil => some (.string "nil")
  | type, .boolean _ => some (.string "boolean")
  | type, .integer _ => some (.string "number")
  | type, .string _ => some (.string "string")
  | type, .table _ => some (.string "table")
  | tonumber, .integer n => some (.integer n)
  | floor, .integer n => some (.integer n)
  | _, _ => none

/-- How statements end. -/
inductive Flow (α : Type) where
  | next (env : Locals α) (heap : Heap α)
  | returned (v : Value α) (heap : Heap α)

/-- Drops the variables that were declared since there were so many. -/
def Flow.leave (depth : Nat) : Flow α → Flow α
  | next env heap => next (env.drop (env.length - depth)) heap
  | returned v heap => returned v heap

/-- Goes on, unless there was a `return`. -/
def Flow.bind (rest : Locals α → Heap α → Option (Flow α)) : Flow α → Option (Flow α)
  | next env heap => rest env heap
  | returned v heap => some (returned v heap)

/-- What a call gives back, `nil` if the function ends without a `return`. -/
def Flow.result : Flow α → Value α × Heap α
  | next _ heap => (.nil, heap)
  | returned v heap => (v, heap)

/-- How far it is from one number to another. -/
def Direction.distance (a b : Int64) : Direction → Int
  | up => b.toInt - a.toInt
  | down => a.toInt - b.toInt

/-- How often a loop goes around. -/
def Direction.turns (way : Direction) (first last : Int64) : Nat :=
  (way.distance first last + 1).toNat

def Direction.next (n : Int64) : Direction → Int64
  | up => n + 1
  | down => n - 1

/-- Runs the body of a loop so many times, unless it returns. -/
def repeatFrom (body : Int64 → Locals α → Heap α → Option (Flow α)) (way : Direction) :
    Nat → Int64 → Locals α → Heap α → Option (Flow α)
  | 0, _, env, heap => some (.next env heap)
  | turns + 1, n, env, heap =>
    (body n env heap).bind (Flow.bind (repeatFrom body way turns (way.next n)))

/-- What calling a function by its name does. -/
abbrev Calls (α : Type) := String → List (Value α) → Heap α → Option (Value α × Heap α)

/-- The parameters with the arguments of a call, `nil` for those that are missing. -/
def bindArgs : List String → List (Value α) → Locals α
  | [], _ => []
  | x :: rest, [] => (x, .nil) :: bindArgs rest []
  | x :: rest, v :: vs => (x, v) :: bindArgs rest vs

variable [DecidableEq α]

/-- Operators. Sums wrap around at 64 bits, and comparisons are between integers. -/
def Operator.apply : Operator → Value α → Value α → Option (Value α)
  | equal, v, w => some (.boolean (v = w))
  | differs, v, w => some (.boolean (v ≠ w))
  | less, .integer m, .integer n => some (.boolean (m < n))
  | greater, .integer m, .integer n => some (.boolean (n < m))
  | plus, .integer m, .integer n => some (.integer (m + n))
  | minus, .integer m, .integer n => some (.integer (m - n))
  | _, _, _ => none

def Expr.eval (env : Locals α) (heap : Heap α) : Expr → Option (Value α)
  | nil => some .nil
  | boolean b => some (.boolean b)
  | numeral n => if n < 9223372036854775808 then some (.integer (Int64.ofNat n)) else none
  | string s => some (.string s)
  | name x => env.lookup x
  | index t key => (t.eval env heap).bind fun v => (key.eval env heap).bind fun k => v.index heap k
  | binary op a b => (a.eval env heap).bind fun v => (b.eval env heap).bind fun w => op.apply v w
  | either a b => (a.eval env heap).bind fun v => if v.isTrue then some v else b.eval env heap
  | call f a => (a.eval env heap).bind fun v => f.apply v

mutual

/-- Runs a statement. What was declared in a body is gone behind it. -/
def Stat.exec (calls : Calls α) : Stat → Locals α → Heap α → Option (Flow α)
  | .declare x e, env, heap => (e.eval env heap).map fun v => .next ((x, v) :: env) heap
  | .assignCall x f args, env, heap =>
    (args.mapM (Expr.eval env heap)).bind fun vs =>
      (calls f vs heap).bind fun r => (env.assign x r.1).map fun env' => .next env' r.2
  | .store t key e, env, heap =>
    (t.eval env heap).bind fun table => (key.eval env heap).bind fun k =>
      (e.eval env heap).bind fun v => (table.store heap k v).map fun heap' => .next env heap'
  | .cond c body, env, heap =>
    (c.eval env heap).bind fun v =>
      if v.isTrue then (Stat.execAll calls body env heap).map (Flow.leave env.length)
      else some (.next env heap)
  | .loop x first last way body, env, heap =>
    ((first.eval env heap).bind Value.integer?).bind fun a =>
      ((last.eval env heap).bind Value.integer?).bind fun b =>
        repeatFrom
          (fun n env heap =>
            (Stat.execAll calls body ((x, .integer n) :: env) heap).map (Flow.leave env.length))
          way (way.turns a b) a env heap
  | .ret e, env, heap =>
    ((e.map (Expr.eval env heap)).getD (some .nil)).map fun v => .returned v heap

/-- Runs statements in order, up to a `return`. -/
def Stat.execAll (calls : Calls α) : List Stat → Locals α → Heap α → Option (Flow α)
  | [], env, heap => some (.next env heap)
  | s :: rest, env, heap => (s.exec calls env heap).bind (Flow.bind (Stat.execAll calls rest))

end

/-- Calls one of the functions, of which the last defined comes first. Each calls only those that
were defined before it. -/
def callIn : List Definition → Calls α
  | [], _, _, _ => none
  | f :: earlier, name, args, heap =>
    if name = f.name then
      (Stat.execAll (callIn earlier) f.body (bindArgs f.params args) heap).map Flow.result
    else callIn earlier name args heap

/-! ## Running statement by statement

The equations of the interpreter, for `simp` to run a function with. -/

section
omit [DecidableEq α]
variable {env : Locals α} {heap : Heap α} {v : Value α}

@[simp] theorem Value.isTrue_boolean (b : Bool) : (Value.boolean b : Value α).isTrue = b := rfl

@[simp] theorem Flow.bind_next (rest : Locals α → Heap α → Option (Flow α)) :
    (Flow.next env heap).bind rest = rest env heap := rfl

@[simp] theorem Flow.bind_returned (rest : Locals α → Heap α → Option (Flow α)) :
    (Flow.returned v heap).bind rest = some (.returned v heap) := rfl

@[simp] theorem Flow.leave_returned (depth : Nat) :
    (Flow.returned v heap).leave depth = .returned v heap := rfl

end

@[simp] theorem Value.store_integer (heap : Heap α) (ref : Nat) (n : Int64) (v : Value α) :
    Value.store heap (.table ref) (.integer n) v
      = some (Function.update heap ref (Function.update (heap ref) (.integer n) v)) := rfl

@[simp] theorem Value.store_string (heap : Heap α) (ref : Nat) (s : String) (v : Value α) :
    Value.store heap (.table ref) (.string s) v
      = some (Function.update heap ref (Function.update (heap ref) (.string s) v)) := rfl

section
variable {calls : Calls α} {env : Locals α} {heap : Heap α}

@[simp] theorem Stat.exec_declare (x : String) (e : Expr) :
    (declare x e).exec calls env heap
      = (e.eval env heap).map fun v => .next ((x, v) :: env) heap := rfl

@[simp] theorem Stat.exec_assignCall (x f : String) (args : List Expr) :
    (assignCall x f args).exec calls env heap
      = (args.mapM (Expr.eval env heap)).bind fun vs =>
          (calls f vs heap).bind fun r => (env.assign x r.1).map fun env' => .next env' r.2 := rfl

@[simp] theorem Stat.exec_store (t key e : Expr) :
    (store t key e).exec calls env heap
      = (t.eval env heap).bind fun table => (key.eval env heap).bind fun k =>
          (e.eval env heap).bind fun v => (table.store heap k v).map fun heap' =>
          .next env heap' := rfl

@[simp] theorem Stat.exec_cond (c : Expr) (body : List Stat) :
    (cond c body).exec calls env heap
      = (c.eval env heap).bind fun v =>
          if v.isTrue then (execAll calls body env heap).map (Flow.leave env.length)
          else some (.next env heap) := rfl

@[simp] theorem Stat.exec_loop (x : String) (first last : Expr) (way : Direction)
    (body : List Stat) :
    (loop x first last way body).exec calls env heap
      = ((first.eval env heap).bind Value.integer?).bind fun a =>
          ((last.eval env heap).bind Value.integer?).bind fun b =>
            repeatFrom
              (fun n env heap =>
                (execAll calls body ((x, .integer n) :: env) heap).map (Flow.leave env.length))
              way (way.turns a b) a env heap := rfl

@[simp] theorem Stat.exec_ret (e : Option Expr) :
    (ret e).exec calls env heap
      = ((e.map (Expr.eval env heap)).getD (some .nil)).map fun v => .returned v heap := rfl

@[simp] theorem Stat.execAll_nil : execAll calls [] env heap = some (.next env heap) := rfl

@[simp] theorem Stat.execAll_cons (s : Stat) (rest : List Stat) :
    execAll calls (s :: rest) env heap
      = (s.exec calls env heap).bind (Flow.bind (execAll calls rest)) := rfl

end

/-! ## Counting with 64 bits

Loops count with integers that wrap around. While there is a number ahead of the loop, the next one
is one further. -/

theorem toInt_succ {n : Int64} (h : n.toInt < 9223372036854775807) :
    (n + 1).toInt = n.toInt + 1 := by
  have hlow := n.le_toInt
  rw [Int64.toInt_add, Int64.toInt_one]
  apply Int.bmod_eq_of_le <;> omega

theorem toInt_pred {n : Int64} (h : -9223372036854775808 < n.toInt) :
    (n - 1).toInt = n.toInt - 1 := by
  have hhigh := n.toInt_lt
  rw [Int64.toInt_sub, Int64.toInt_one]
  apply Int.bmod_eq_of_le <;> omega

namespace Direction

variable {way : Direction} {a b last : Int64}

theorem distance_eq_zero_iff : way.distance a b = 0 ↔ b = a := by
  rw [← Int64.toInt_inj]
  cases way <;> simp only [distance] <;> omega

theorem distance_add (way : Direction) (a b c : Int64) :
    way.distance a b + way.distance b c = way.distance a c := by
  cases way <;> simp only [distance] <;> omega

/-- A step goes one further while there is a number ahead. -/
theorem distance_next (h : 0 < way.distance a last) (b : Int64) :
    way.distance (way.next a) b = way.distance a b - 1 := by
  have hlow := last.le_toInt
  have hhigh := last.toInt_lt
  cases way with
  | up =>
    simp only [distance, next] at h ⊢
    rw [toInt_succ (by omega)]
    omega
  | down =>
    simp only [distance, next] at h ⊢
    rw [toInt_pred (by omega)]
    omega

end Direction

end BlockLink.Lua
