import Skirmish.Decimal
import Skirmish.Enemy.Exchange

/-!
# Lines of the program

The one line that a session is started with, and the lines that it reports in.
-/

/-! ## Options

The options of the command line:

```text
-c, --config PATH     the setup file
-e, --enemies COUNT   how many enemies there are
-s, --steps COUNT     how many steps are made at most
    --dt SECONDS      how long a step is
    --seed NUMBER     what the enemies' random numbers are derived from
    --trace PATH      where the trace is written
-v, --verbose         whether more is reported
```

A value stands in the next argument, which does not start with a minus sign then, or in the same
one: `--steps=9`, `-s9`, `-s=9`. Letters can be put together, `-vs9`. No option is given twice.
-/

namespace Skirmish.CommandLine

/-- What the command line asks for. -/
structure Options where
  /-- The setup file, if it is not the usual setup. -/
  config : Option String
  enemies : UInt64
  /-- How many steps are made at most. -/
  steps : UInt64
  /-- How long a step is, in seconds. -/
  dt : Float32
  /-- What the enemies' random numbers are derived from. -/
  seed : UInt64
  /-- Where the trace is written, if it is. -/
  trace : Option String
  verbose : Bool

inductive Setting where
  | config
  | enemies
  | steps
  | dt
  | seed
  | trace
deriving DecidableEq, Repr

def Setting.ofName? : String → Option Setting
  | "config" => some config
  | "enemies" => some enemies
  | "steps" => some steps
  | "dt" => some dt
  | "seed" => some seed
  | "trace" => some trace
  | _ => none

def Setting.ofLetter? : Char → Option Setting
  | 'c' => some config
  | 'e' => some enemies
  | 's' => some steps
  | _ => none

def count? (text : String) : Option UInt64 := do
  let digits := text.toList
  let n ← Decimal.digits? 10 (if digits.head? = some '+' then digits.drop 1 else digits)
  if n < UInt64.size then some (UInt64.ofNat n) else none

/-- A number without a sign: a decimal, infinity, or what is not a number. -/
def magnitude? (text : List Char) : Option Float32 :=
  match (String.ofList text).toLower with
  | "inf" => some Numeric.infinity
  | "infinity" => some Numeric.infinity
  | "nan" => some Numeric.notANumber
  | _ => (Decimal.fractional? text).map Decimal.nearestSingle

def single? (text : String) : Option Float32 :=
  match text.toList with
  | '-' :: rest => (magnitude? rest).map fun x => -x
  | '+' :: rest => magnitude? rest
  | rest => magnitude? rest

/-- A path, which is not empty. -/
def path? (text : String) : Option String :=
  if text.isEmpty then none else some text

/-- The options that were given. -/
structure Draft where
  config : Option String
  enemies : Option UInt64
  steps : Option UInt64
  dt : Option Float32
  seed : Option UInt64
  trace : Option String
  verbose : Bool

namespace Draft

def empty : Draft := ⟨none, none, none, none, none, none, false⟩

/-- A value where there was none. -/
def fill? {α : Type} (old new : Option α) : Option (Option α) :=
  match old, new with
  | none, some value => some (some value)
  | _, _ => none

def assign? (s : Setting) (value : String) (d : Draft) : Option Draft :=
  match s with
  | .config => (fill? d.config (path? value)).map fun v => { d with config := v }
  | .enemies => (fill? d.enemies (count? value)).map fun v => { d with enemies := v }
  | .steps => (fill? d.steps (count? value)).map fun v => { d with steps := v }
  | .dt => (fill? d.dt (single? value)).map fun v => { d with dt := v }
  | .seed => (fill? d.seed (count? value)).map fun v => { d with seed := v }
  | .trace => (fill? d.trace (path? value)).map fun v => { d with trace := v }

def raise? (d : Draft) : Option Draft :=
  if d.verbose then none else some { d with verbose := true }

/-- Letters put together, and the option whose value is still to come. -/
def letters? (d : Draft) : List Char → Option (Draft × Option Setting)
  | [] => some (d, none)
  | 'v' :: rest => d.raise?.bind fun d => letters? d rest
  | c :: rest => do
    let s ← Setting.ofLetter? c
    match rest with
    | [] => return (d, some s)
    | '=' :: value => return (← d.assign? s (String.ofList value), none)
    | value => return (← d.assign? s (String.ofList value), none)

/-- A name, possibly with a value, and the option whose value is still to come. -/
def name? (d : Draft) (text : List Char) : Option (Draft × Option Setting) :=
  let name := String.ofList (text.takeWhile (· ≠ '='))
  match text.dropWhile (· ≠ '=') with
  | [] =>
    if name = "verbose" then d.raise?.map (·, none)
    else (Setting.ofName? name).map fun s => (d, some s)
  | _ :: value => do
    let s ← Setting.ofName? name
    return (← d.assign? s (String.ofList value), none)

/-- An argument where an option is expected, and the option whose value is still to come. -/
def argument? (d : Draft) (text : String) : Option (Draft × Option Setting) :=
  match text.toList with
  | '-' :: '-' :: rest => d.name? rest
  | ['-'] => none
  | '-' :: rest => d.letters? rest
  | _ => none

/-- Whether an argument can be the value of an option. -/
def isValue (text : String) : Bool :=
  match text.toList with
  | ['-'] => true
  -- what looks like an option is not taken for a value
  | '-' :: _ => false
  | _ => true

/-- The options in some arguments, where the value of one may be still to come. After two minus
signs there are no options any more, and nothing else is expected. -/
def read? : Draft → Option Setting → List String → Option Draft
  | d, none, [] => some d
  | _, some _, [] => none
  | d, some s, text :: rest =>
    if isValue text then (d.assign? s text).bind fun d => read? d none rest else none
  | d, none, text :: rest =>
    -- nothing is expected behind the two signs, as there are no arguments but options
    if text = "--" then (if rest.isEmpty then some d else none)
    else (d.argument? text).bind fun (d, pending) => read? d pending rest

end Draft

/-- **The options in the arguments,** each as usual if it is not given. -/
def Options.ofArguments? (arguments : List String) : Option Options :=
  (Draft.empty.read? none arguments).map fun d =>
    { config := d.config
      enemies := d.enemies.getD 8
      steps := d.steps.getD 3600
      dt := d.dt.getD (1 / 60)
      seed := d.seed.getD 0
      trace := d.trace
      verbose := d.verbose }

end Skirmish.CommandLine

/-! ## Lines of a report

A journal entry on one line: its level, its message, and its values by name. Texts that are values
of their own stand in quotes.
-/

namespace Skirmish

/-- A value as reports show it. -/
def Journal.Value.text : Journal.Value → String
  | count n => toString n
  | measure x => Enemy.descriptionStyle.write x
  | flag b => toString b
  | quoted text => "\"" ++ text ++ "\""
  | plain text => text

def Journal.Entry.line (e : Journal.Entry) : String :=
  let fields := e.fields.map fun f => " " ++ f.1 ++ "=" ++ f.2.text
  "".pushn ' ' (5 - e.level.text.length) ++ e.level.text ++ " " ++ e.message ++ String.join fields

end Skirmish
