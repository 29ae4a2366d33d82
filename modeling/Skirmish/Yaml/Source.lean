import Skirmish.Decimal
import Skirmish.Json
import Skirmish.Yaml.Node

/-!
# Reading YAML

What a document stands for, without a type and with one: scalars that are numbers, contents, and the
records and numbers that a type asks for.
-/

/-! ## Numbers in YAML

Which texts are numbers:

* `unsigned?` and `negative?` — integers, in decimal or with `0x`, `0o` or `0b` in front;
* `real?` — decimals in double precision, infinities, and what is not a number.

Digits with a needless zero in front are no integer, and where the type is not known no number at
all.
-/

namespace Skirmish.Yaml

open Decimal (isDigit)

def withoutPlus : List Char → List Char
  | '+' :: rest => rest
  | text => text

def isSigned : List Char → Bool
  | '+' :: _ => true
  | '-' :: _ => true
  | _ => false

def withoutSign : List Char → List Char
  | '+' :: rest => rest
  | '-' :: rest => rest
  | text => text

/-- Whether a text consists of digits, a needless zero in front, and a sign at most. -/
def isZeroPadded (text : List Char) : Bool :=
  match withoutSign text with
  | '0' :: rest => !rest.isEmpty && rest.all isDigit
  | _ => false

/-- A whole number without a sign, in decimal or in the base that its beginning names. -/
def based? : List Char → Option Nat
  | '0' :: 'x' :: digits => Decimal.digits? 16 digits
  | '0' :: 'o' :: digits => Decimal.digits? 8 digits
  | '0' :: 'b' :: digits => Decimal.digits? 2 digits
  | digits => Decimal.digits? 10 digits

/-- **A natural number,** possibly with a plus sign. -/
def unsigned? (text : List Char) : Option Nat :=
  if isZeroPadded text then none else based? (withoutPlus text)

/-- **The size of a number with a minus sign.** -/
def negative? (text : List Char) : Option Nat :=
  match text with
  | '-' :: rest => if isZeroPadded text then none else based? rest
  | _ => none

/-- A decimal with a minus sign or without a sign. -/
def signedDecimal? : List Char → Option Float
  | '-' :: rest => (Decimal.fractional? rest).map fun d => -d.nearestDouble
  | rest => (Decimal.fractional? rest).map Decimal.nearestDouble

/-- Infinity in double precision. -/
def doubleInfinity : Float := Numeric.widen Numeric.infinity

/-- **A number in double precision.** A decimal must not be too large for that. -/
def real? (text : List Char) : Option Float :=
  let bare := withoutPlus text
  let name := String.ofList bare
  if text.head? = some '+' ∧ isSigned bare then none
  else if name = ".inf" ∨ name = ".Inf" ∨ name = ".INF" then some doubleInfinity
  else if name = "-.inf" ∨ name = "-.Inf" ∨ name = "-.INF" then some (-doubleInfinity)
  else if text.head? ≠ some '+' ∧ (name = ".nan" ∨ name = ".NaN" ∨ name = ".NAN") then
    some (Numeric.widen Numeric.notANumber)
  else (signedDecimal? bare).filter Float.isFinite

end Skirmish.Yaml

/-! ## YAML content without a type

What a node stands for when nothing is known about the type expected there:

* `Reading` — acts that read a document, in which following an alias has a cost;
* `Content` — the values;
* `Content.read` — the value of a node.

A plain scalar without a tag is nothing, a truth value, an integer or a decimal if it looks like
one, and a text otherwise; any other scalar is a text unless it has one of YAML's own tags. A tag of
the document's own stands for a type that is not known here, and is refused.

A document may follow a hundred aliases for each step that it takes to read through it once, which
keeps small documents from growing beyond measure. Collections may be nested 128 deep.
-/

namespace Skirmish.Yaml

/-- **Acts of reading a document,** which keep count of the aliases that may still be followed. -/
abbrev Reading (α : Type) : Type := ReaderT Document (StateT Nat Option) α

namespace Reading

/-- What an act reads from a document. -/
def run? {α : Type} (act : Reading α) (d : Document) : Option α :=
  (StateT.run (ReaderT.run act d) (100 * d.root.extent)).map (·.1)

/-- The act that refuses the document. -/
def refuse {α : Type} : Reading α :=
  fun _ _ => none

/-- The act that has a result or refuses the document. -/
def ofOption {α : Type} : Option α → Reading α
  | some a => pure a
  | none => refuse

/-- **Following a node** to what it stands for, which is itself unless it is an alias. -/
def follow : Node → Reading Node
  | .alias anchor => fun d left =>
    match left with
    | 0 => none
    -- an alias is followed once; what is anchored is never an alias itself
    | left + 1 => (d.anchored.lookup anchor).map (·, left)
  | node => pure node

end Reading

/-- A value whose type was not known when it was read. -/
inductive Content where
  | null
  | bool (b : Bool)
  | natural (n : UInt64)
  /-- A negative integer of 64 bits, or the zero with a minus sign, by its size. -/
  | negative (n : UInt64)
  /-- A number in double precision. -/
  | real (x : Float)
  | text (s : String)
  | sequence (items : List Content)
  | mapping (entries : List (Content × Content))

namespace Content

/-- Nothing, as a plain scalar. -/
def null? (s : String) : Option Content :=
  if s = "null" ∨ s = "Null" ∨ s = "NULL" ∨ s = "~" then some null else none

/-- A truth value, as a plain scalar. -/
def bool? (s : String) : Option Content :=
  if s = "true" ∨ s = "True" ∨ s = "TRUE" then some (bool true)
  else if s = "false" ∨ s = "False" ∨ s = "FALSE" then some (bool false)
  else none

/-- What a text that might be an integer is: an integer of 64 bits, one that is too large, or none.
-/
inductive Integer where
  /-- An integer of 64 bits. -/
  | fits (value : Content)
  /-- An integer of more than 64 and at most 128 bits. -/
  | large
  /-- No integer of at most 128 bits. -/
  | no

def integer (text : List Char) : Integer :=
  match unsigned? text, negative? text with
  | some n, _ =>
    if n < UInt64.size then .fits (natural (UInt64.ofNat n))
    else if n < Nat.pow 2 128 then .large
    else .no
  | none, some n =>
    if n ≤ Nat.pow 2 63 then .fits (negative (UInt64.ofNat n))
    else if n ≤ Nat.pow 2 127 then .large
    else .no
  | none, none => .no

/-- **What a plain scalar without a tag stands for.** -/
def ofPlain? (s : String) : Option Content :=
  if s.isEmpty then some null
  else
    match null? s, bool? s with
    | some value, _ => some value
    | none, some value => some value
    | none, none =>
      let chars := s.toList
      match integer chars with
      | .fits value => some value
      | .large => none
      | .no =>
        -- digits with a needless zero are a text, although they could be a decimal
        if isZeroPadded chars then some (text s)
        else
          match real? chars with
          | some x => some (real x)
          | none => some (text s)

/-- What a scalar with one of YAML's own tags stands for; a tag without a rule stands for texts. -/
def ofTagged? (tag : Tag) (s : String) : Option Content :=
  if tag = .core "bool" then bool? s
  else if tag = .core "int" then
    match integer s.toList with
    | .fits value => some value
    | _ => none
  else if tag = .core "float" then (real? s.toList).map real
  else if tag = .core "null" then null? s
  else some (text s)

/-- **What a scalar stands for.** A tag of the document's own is refused, unless it is no text: then
it is passed over. -/
def ofScalar? (s : Scalar) : Option Content :=
  let untagged := if s.style = .plain then ofPlain? s.text else some (text s.text)
  match s.tag with
  | none => untagged
  | some tag =>
    if !tag.isLocal then ofTagged? tag s.text
    else if tag.isText then none
    else untagged

/-- Whether a collection with a tag is refused. -/
def refusesTag (tag : Option Tag) : Bool :=
  tag.any fun t => t.isLocal && t.isText

/-- **What a node stands for,** if its collections are nested at most so deep. -/
def read : Nat → Node → Reading Content
  | depth, node => do
    match ← Reading.follow node with
    | .scalar s => Reading.ofOption (ofScalar? s)
    | .alias _ => Reading.refuse
    | .sequence tag items =>
      match depth with
      | 0 => Reading.refuse
      | depth + 1 =>
        if refusesTag tag then Reading.refuse
        else return sequence (← items.mapM (read depth))
    | .mapping tag entries =>
      match depth with
      | 0 => Reading.refuse
      | depth + 1 =>
        if refusesTag tag then Reading.refuse
        else return mapping (← entries.mapM fun e => return (← read depth e.1, ← read depth e.2))

end Content

/-! ## Reading records from YAML

Records and numbers can be read from two kinds of values, and `Source` is what they have in common:

* from a `Node`, where the type of each value is known when it is met: a record is a mapping, or
  nothing at all, and a number is a plain scalar;
* from `Content`, where it was not: a record is a mapping or a sequence, and a number is what looked
  like one.

Either way names that are not asked for do not matter, and those that are occur at most once.
-/

/-- **Values that records and numbers can be read from.** -/
class Source (α : Type) where
  /-- The fields of a record with the given names, in their order. -/
  fields : List String → α → Reading (List (Option α))
  single : α → Reading Float32

namespace Node

/-- A name in a mapping: the text of any scalar. -/
def name (node : Node) : Reading String := do
  match ← Reading.follow node with
  | .scalar s => return s.text
  | _ => Reading.refuse

/-- The entries of a mapping by name. Nothing written is a mapping without entries. -/
def named (node : Node) : Reading (List (String × Node)) := do
  match ← Reading.follow node with
  | .mapping _ entries => entries.mapM fun e => return (← e.1.name, e.2)
  | .scalar s => if s.style = .plain && s.text.isEmpty then return [] else Reading.refuse
  | _ => Reading.refuse

/-- The items of a sequence. Nothing written is a sequence without items. -/
def items (node : Node) : Reading (List Node) := do
  match ← Reading.follow node with
  | .sequence _ items => return items
  | .scalar s => if s.style = .plain && s.text.isEmpty then return [] else Reading.refuse
  | _ => Reading.refuse

/-- Whether a scalar may be of one of YAML's own types. It is plain, or it has the tag of the type
and stands on lines of its own. -/
def mayBe (type : String) (s : Scalar) : Bool :=
  s.style = .plain || (s.style = .literal && s.tag = some (.core type))

def natural (node : Node) : Reading UInt64 := do
  match ← Reading.follow node with
  | .scalar s =>
    if mayBe "int" s then
      let n ← Reading.ofOption (unsigned? s.text.toList)
      if n < UInt64.size then return UInt64.ofNat n else Reading.refuse
    else Reading.refuse
  | _ => Reading.refuse

instance : Source Node where
  fields names node := do Reading.ofOption (Record.named? names (← node.named))
  single node := do
    match ← Reading.follow node with
    | .scalar s =>
      if mayBe "float" s then return Numeric.narrow (← Reading.ofOption (real? s.text.toList))
      else Reading.refuse
    | _ => Reading.refuse

end Node

namespace Content

/-- A name in a mapping: a text, or the number of a field. There is none for a number behind the
last field. -/
def name? (names : List String) : Content → Option (Option String)
  | text s => some (some s)
  -- the number of a field stands for its name
  | natural n => some names[n.toNat]?
  | _ => none

/-- An integer rounds once to single precision, and a zero has no sign. -/
def single? : Content → Option Float32
  | natural n => some n.toFloat32
  | negative n => some (if n = 0 then 0 else -n.toFloat32)
  | real x => some (Numeric.narrow x)
  | _ => none

def fields? (names : List String) : Content → Option (List (Option Content))
  | mapping entries => do
    let named ← entries.mapM fun e => return (← name? names e.1, e.2)
    Record.named? (names.map some) named
  | sequence items => Record.positional? names.length items
  | _ => none

instance : Source Content where
  fields names content := Reading.ofOption (content.fields? names)
  single content := Reading.ofOption content.single?

end Content

end Skirmish.Yaml
