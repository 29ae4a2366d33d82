import Skirmish.CommandLine.Line
import Skirmish.Encounter
import Skirmish.Journal
import Skirmish.Trace

/-!
# Sessions

A session is one call of the program: it reads the options and the setup file, runs an encounter,
reports on it, and writes the trace.

Files and reports are in the hands of a `World`, in any monad. So the course of a session can be
followed without a file system.
-/

namespace Skirmish.CommandLine

open Journal (Entry Filter)

/-- What a session needs from outside. -/
structure World (m : Type → Type) where
  read : String → m (Except Unreadable String)
  write : String → String → m (Except Unreadable Unit)
  /-- A report on what happens. -/
  report : Entry → m Unit

/-- How a session ends. -/
inductive Outcome where
  | done
  /-- Something failed, for these reasons, the general before the particular. -/
  | failed (reasons : List String)
  /-- The arguments have no meaning. -/
  | misused
deriving DecidableEq, Repr

namespace Outcome

/-- The number that the program returns. -/
def code : Outcome → UInt8
  | done => 0
  | failed _ => 1
  | misused => 2

def lines : Outcome → List String
  | done => []
  | failed [] => []
  | failed [reason] => ["Error: " ++ reason]
  | failed (reason :: causes) =>
    ["Error: " ++ reason, "", "Caused by:"] ++ causes.map ("    " ++ ·)
  | misused => ["Error: the arguments are not understood"]

end Outcome

/-- **How messages write numbers:** without an exponent and without a needless fraction. -/
def messageStyle : Decimal.Style where
  tie := .away
  positional := fun _ => true
  showFraction := false
  notANumber := "NaN"
  infinity := "inf"
  negativeInfinity := "-inf"

/-- Whether a step can be that long. -/
def isStepLength (dt : Float32) : Bool :=
  dt.isFinite && decide (dt > 0)

/-- What is said about a step that cannot be that long. -/
def stepLengthMessage (dt : Float32) : String :=
  "--dt must be a positive number of seconds, got " ++ messageStyle.write dt

def programEntry (message : String) (fields : List (String × Journal.Value)) : Entry :=
  ⟨.info, .program, message, fields⟩

/-- The entry for the beginning of an encounter. -/
def startEntry (o : Options) : Entry :=
  programEntry "starting encounter"
    [("enemies", .count o.enemies.toNat), ("steps", .count o.steps.toNat), ("dt", .measure o.dt),
      ("seed", .count o.seed.toNat)]

def finishEntry (s : Summary) : Entry :=
  programEntry "encounter finished"
    [("steps", .count s.steps.toNat), ("spawned", .count s.spawned),
      ("survivors", .count s.survivors), ("reaped", .count s.reaped),
      ("ever_seeking", .count s.seekSteps.length),
      ("longest_seek_steps", .count s.longestSeek.toNat)]

/-- The entry for a trace that was written. -/
def traceEntry (log : Trace.Log) (path : String) : Entry :=
  programEntry "trace written" [("events", .count log.size), ("path", .plain path)]

section

variable {m : Type → Type} [Monad m]

/-- The setup that the options ask for. -/
def setup (w : World m) (o : Options) : m (Except FileError Setup) := do
  match o.config with
  | none => return .ok .usual
  | some path => return Setup.ofFile (← w.read path)

/-- The trace of an encounter written to the file that the options name. -/
def writeTrace (w : World m) (o : Options) (e : Encounter) : m Outcome := do
  match o.trace, e.trace with
  | some path, some log =>
    match ← w.write path log.toJson.pretty with
    | .ok () =>
      w.report (traceEntry log path)
      return .done
    | .error reason => return .failed ["failed to write trace " ++ path, reason.message]
  | _, _ => return .done

/-- An encounter from its beginning to its end. The tree has labels if it is traced. -/
def encounter (w : World m) (o : Options) (s : Setup) : m Outcome := do
  let behavior := s.tuning.behavior
  let root := if o.trace.isSome then Enemy.labeledTree behavior else Enemy.tree behavior
  w.report (startEntry o)
  let ran := (Encounter.spawn s o.enemies o.seed o.trace.isSome).run root o.steps o.dt
  for happening in ran.journal do
    w.report happening.entry
  match ran.summary with
  | .error _ => return .failed ["a turn has no limit"]
  | .ok summary =>
    w.report (finishEntry summary)
    writeTrace w o ran.encounter

/-- A session with the given options. -/
def runOptions (w : World m) (o : Options) : m Outcome := do
  -- before any file is read
  if !isStepLength o.dt then return .failed [stepLengthMessage o.dt]
  match ← setup w o with
  | .error e => return .failed (e.setupMessages (o.config.getD ""))
  | .ok s => encounter w o s

/-- The filter for the reports: the one in the environment, if there is one that makes sense. -/
def chooseFilter (ambient : Option String) (o : Options) : Filter :=
  (ambient.bind Filter.ofText?).getD (.upTo (if o.verbose then .debug else .info))

/-- A world that is given only the reports that a filter lets pass. -/
def World.filtered (f : Filter) (w : World m) : World m :=
  { w with report := fun e => if f.allows e then w.report e else pure () }

/-- **A session with the given arguments.** The first argument after the world is the filter in the
environment. -/
def run (w : World m) (ambient : Option String) (arguments : List String) : m Outcome :=
  match Options.ofArguments? arguments with
  | none => return .misused
  | some o => runOptions (w.filtered (chooseFilter ambient o)) o

end

end Skirmish.CommandLine
