import Skirmish.Tree

/-!
# Puppets

A puppet is the smallest agent that can show what a tree does: it keeps a list of the leaves it was
ticked with, some integer registers, and a timer per name. Its leaves follow a script, so a tree can
be rehearsed on puppets before it is given to anything that moves.
-/

namespace Skirmish.Tree

/-- An agent with registers and timers. -/
structure Puppet where
  /-- Its stable number. -/
  id : UInt64
  /-- It lives as long as this is positive. -/
  health : Int
  /-- Counters that leaves read and change. -/
  registers : List Int
  /-- Frames it has been refreshed for. -/
  step : UInt64
  /-- The number of the last frame. -/
  frame : Int
  /-- The time it has been refreshed for, in seconds. -/
  elapsed : Float32
  /-- The names of the leaves it was ticked with, newest first. -/
  ticked : List String
  /-- The time on each timer that was ever started. -/
  timers : List (String × Float32)
  /-- How often each action was performed. -/
  performed : List (String × Nat)

namespace Puppet

/-- A puppet's surroundings are the number of the frame. Its clock takes any duration. The trace is
left to its agent's sink. -/
instance : Driven Puppet Int where
  agent := Puppet.id
  step := Puppet.step
  emit _ _ p := p
  refresh frame dt p := { p with frame := frame, elapsed := p.elapsed + dt, step := p.step + 1 }
  isAlive p := decide (0 < p.health)

/-- The value under a name, or a default. -/
def valueOr {α : Type} (default : α) (name : String) (table : List (String × α)) : α :=
  (table.lookup name).getD default

/-- The table with a new value under a name. -/
def assign {α : Type} (name : String) (value : α) (table : List (String × α)) :
    List (String × α) :=
  (name, value) :: table.filter (·.1 ≠ name)

/-- The value of a register; there is a zero behind the last one. -/
def register (p : Puppet) (index : Nat) : Int :=
  p.registers.getD index 0

/-- A register changed by an amount. -/
def shift (index : Nat) (amount : Int) (p : Puppet) : Puppet :=
  { p with registers := p.registers.modify index (· + amount) }

def sign (name : String) (p : Puppet) : Puppet :=
  { p with ticked := name :: p.ticked }

variable {ν : Type}

/-- **A scripted action:** it changes registers and health, and its statuses follow the script,
which starts again after its end. -/
def perform (name : String) (script : List Status) (shifts : List (Nat × Int)) (hurt : Int) :
    Act Puppet ν Status := do
  let before := valueOr 0 name (← Act.get).performed
  Act.modify fun p =>
    let p := shifts.foldl (fun p s => p.shift s.1 s.2) (p.sign name)
    { p with health := p.health - hurt, performed := assign name (before + 1) p.performed }
  return script.getD (before % script.length) .success

/-- **An action that takes time:** it is running until its timer has reached `seconds`, then
succeeds and starts over. -/
def wait (name : String) (seconds dt : Float32) : Act Puppet ν Status := do
  let time := valueOr 0 name (← Act.get).timers + dt
  let done := decide (time ≥ seconds)
  Act.modify fun p =>
    { p.sign name with timers := assign name (if done then 0 else time) p.timers }
  return if done then .success else .running

/-- **A question about a register:** whether it is below a bound, before it is shifted. -/
def isBelow (name : String) (index : Nat) (bound amount : Int) : Act Puppet ν Bool := do
  let answer := decide ((← Act.get).register index < bound)
  Act.modify fun p => (p.sign name).shift index amount
  return answer

end Puppet

end Skirmish.Tree
