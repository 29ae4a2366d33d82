import Skirmish.Decimal

/-!
# The journal

What is reported while things run, and which of it is shown.
-/

/-! ## Journal entries

What is reported while things run, in the form in which it is shown: a level, a message, and named
values. An entry also belongs to a scope, by which entries can be selected.
-/

namespace Skirmish.Journal

/-- How much an entry matters, the most important first. -/
inductive Level where
  | error
  | warn
  | info
  | debug
  | trace
deriving DecidableEq, Repr

/-- The level's rank: an entry is shown if its rank is at most that of the limit. -/
def Level.rank : Level → Nat
  | error => 1
  | warn => 2
  | info => 3
  | debug => 4
  | trace => 5

def Level.text : Level → String
  | error => "ERROR"
  | warn => "WARN"
  | info => "INFO"
  | debug => "DEBUG"
  | trace => "TRACE"

/-- The part of the program that an entry comes from. -/
inductive Scope where
  /-- The program as a whole. -/
  | program
  /-- The encounter's course. -/
  | encounter
  /-- The updating of agents. -/
  | update
  /-- The labelled nodes of trees. -/
  | nodes
  /-- The leaves of the enemy's tree. -/
  | leaves
deriving DecidableEq, Repr

/-- The name that selects a scope in a filter. -/
def Scope.text : Scope → String
  | program => "drift_sim"
  | encounter => "drift_sim::scenario"
  | update => "drift_bt::driver"
  | nodes => "drift_bt::nodes"
  | leaves => "drift_enemy::leaves"

/-- A value of an entry. -/
inductive Value where
  | count (n : Nat)
  | measure (x : Float32)
  | flag (b : Bool)
  /-- A text that is shown in quotes. -/
  | quoted (text : String)
  /-- A text that is shown as it is. -/
  | plain (text : String)

structure Entry where
  level : Level
  scope : Scope
  message : String
  /-- The values that go with it, in order. -/
  fields : List (String × Value)

/-! ## Selecting journal entries

A filter is a list of rules, written with commas between them:

* `level` — everything up to a level;
* `scope=level` — what belongs to a scope, or to one that starts with that name, up to a level;
* `scope` — the same without a limit.

Of the rules that fit an entry the one with the longest name decides, and of equal ones the last. A
rule may also name a span in square brackets. Nothing that is journaled here happens in a span, so
such a rule fits no entry.
-/

/-- A limit on levels; none lets nothing pass. -/
abbrev Limit : Type := Option Level

/-- The limit with a number. -/
def Limit.ofNumber? (n : Nat) : Option Limit :=
  [none, some .error, some .warn, some .info, some .debug, some .trace][n]?

/-- The limit with a name or a number. -/
def Limit.ofText? (text : String) : Option Limit :=
  match text.toLower with
  | "off" => some none
  | "error" => some (some .error)
  | "warn" => some (some .warn)
  | "info" => some (some .info)
  | "debug" => some (some .debug)
  | "trace" => some (some .trace)
  | _ =>
    let digits := text.toList
    (Decimal.digits? 10 (if digits.head? = some '+' then digits.drop 1 else digits)).bind
      Limit.ofNumber?

def Limit.allows (limit : Limit) (level : Level) : Bool :=
  limit.any fun l => level.rank ≤ l.rank

/-- A rule of a filter. -/
structure Rule where
  /-- The beginning of the scopes that it is about. -/
  scope : String
  /-- Whether it is about entries outside of spans. -/
  spanless : Bool
  /-- What it lets pass. -/
  limit : Limit
deriving DecidableEq, Repr

namespace Rule

/-- Whether the name of a scope can start with a character. -/
def startsScope (c : Char) : Bool :=
  c.isAlphanum || c.toNat ≥ 128 || c = '_' || c = ':' || c = '-'

/-- Whether the name of a scope continues with a character. -/
def isScopeChar (c : Char) : Bool :=
  c ≠ '=' && c ≠ '['

/-- The limit at the end of a rule: after an equals sign, or none at all. -/
def limit? : List Char → Option Limit
  | [] => some (some .trace)
  | ['='] => some (some .trace)
  | '=' :: text => Limit.ofText? (String.ofList text)
  | _ => none

/-- What follows a span, if there is one in front. -/
def afterSpan? : List Char → Option (Bool × List Char)
  | '[' :: rest =>
    match rest.dropWhile (· ≠ ']') with
    | [] => none
    | _ :: rest => some (true, rest)
  | rest => some (false, rest)

/-- Whether a rule can start with a character. -/
def starts (c : Char) : Bool :=
  c = '[' || startsScope c

/-- **The rule with a text.** -/
def ofText? (text : String) : Option Rule := do
  let chars := text.toList
  if !chars.head?.any starts then none
  match Limit.ofText? text with
  -- a level by itself, or what could be one, is about all scopes
  | some limit => return ⟨"", true, limit⟩
  | none =>
    let (span, rest) ← afterSpan? (chars.dropWhile isScopeChar)
    return ⟨String.ofList (chars.takeWhile isScopeChar), !span, ← limit? rest⟩

/-- Whether a rule fits the entries of a scope. -/
def fits (scope : Scope) (r : Rule) : Bool :=
  r.spanless && r.scope.toList.isPrefixOf scope.text.toList

/-- Whether a rule decides before another one, which stands in front of it. -/
def outranks (r other : Rule) : Bool :=
  other.scope.length ≤ r.scope.length

end Rule

/-- Rules for what is shown. -/
structure Filter where
  rules : List Rule

namespace Filter

/-- Everything up to a level. -/
def upTo (level : Level) : Filter := ⟨[⟨"", true, some level⟩]⟩

/-- **The filter with a text,** unless one of its rules is not one. Without any rule only errors
pass. -/
def ofText? (text : String) : Option Filter :=
  match (text.splitOn ",").filter (!·.isEmpty) with
  | [] => some (upTo .error)
  | texts => (texts.mapM Rule.ofText?).map Filter.mk

/-- The rule that decides on the entries of a scope. -/
def decisive? (f : Filter) (scope : Scope) : Option Rule :=
  (f.rules.filter (Rule.fits scope)).foldl
    (fun best r =>
      match best with
      -- of equal names the later rule wins
      | some b => if r.outranks b then some r else some b
      | none => some r)
    none

/-- **Whether an entry is shown.** -/
def allows (f : Filter) (e : Entry) : Bool :=
  (f.decisive? e.scope).any fun r => r.limit.allows e.level

end Filter

end Skirmish.Journal
