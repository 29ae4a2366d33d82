import Skirmish.Decimal

/-!
# JSON

Values and their texts in the notation that traces are exchanged in: the parts of a value first,
then the reader and the writer.
-/

/-! ## Records

A record is written as named values in any order, or as the values alone in the order of their
names. These are the two ways to find its fields, whatever the values are:

* `named?` — by name, where a name may be missing but not occur twice, and other names do not
  matter;
* `positional?` — by place, where the last ones may be missing but none may be left over.
-/

namespace Skirmish.Record

variable {κ α : Type} [DecidableEq κ]

/-- The value of the only entry with a name: missing if there is none, and no answer at all if there
are several. -/
def only? (entries : List (κ × α)) (name : κ) : Option (Option α) :=
  match entries.filter fun e => e.1 = name with
  | [] => some none
  | [e] => some (some e.2)
  | _ => none

/-- **Fields by name,** in the order of the names. -/
def named? (names : List κ) (entries : List (κ × α)) : Option (List (Option α)) :=
  names.mapM (only? entries)

/-- **Fields by place,** for so many names. -/
def positional? (count : Nat) (items : List α) : Option (List (Option α)) :=
  if items.length ≤ count then
    some (items.map some ++ List.replicate (count - items.length) none)
  else none

end Skirmish.Record

/-! ## JSON values

A JSON text stands for one value:

* `Value` — the six kinds of values; numbers keep their literal, objects the order of their members;
* `Value.fields?` — the fields of a record, written as an object or as the array of its fields.

A string may hold an escape that stands for no character, one half of a surrogate pair alone. Such a
text is still well formed, so the string is there but has no content (`none`).
-/

namespace Skirmish.Json

inductive Value where
  | null
  | bool (b : Bool)
  /-- A number, by its literal. -/
  | number (literal : List Char)
  /-- A text, if its escapes stand for characters. -/
  | string (text : Option String)
  | array (items : List Value)
  /-- Named values in order. A name may occur more than once. -/
  | object (members : List (Option String × Value))

namespace Value

/-- A string with the given content. -/
def text (s : String) : Value :=
  string (some s)

/-- An object whose members have the given names. -/
def record (members : List (String × Value)) : Value :=
  object (members.map fun m => (some m.1, m.2))

def string? : Value → Option String
  | string text => text
  | _ => none

def items? : Value → Option (List Value)
  | array items => some items
  | _ => none

/-- **The fields of a record,** in the order of their names. In an object each name occurs at most
once and other members are passed over; in an array the fields stand in order, and there are none
behind the last. -/
def fields? (names : List String) : Value → Option (List (Option Value))
  | object members =>
    if members.all (·.1.isSome) then Record.named? (names.map some) members else none
  | array items => Record.positional? names.length items
  | _ => none

end Value

/-! ## JSON numbers

The literal of a number, split into its parts, and the values that are read from it:

* `Numeral.ofLiteral?` — the grammar of literals;
* `Numeral.natural?` — a 64-bit natural number, only from a literal that is one;
* `Numeral.single?` — a single-precision number, from any literal in range.

A literal that is a 64-bit integer is rounded once. Any other goes through double precision: the
digits that fit into 64 bits are taken as an integer, which is multiplied or divided by a power of
ten in double precision. That may differ from the nearest number in the last places of a double, but
it is exact whenever both the integer and the power are.
-/

structure Exponent where
  negative : Bool
  digits : List Char
deriving DecidableEq, Repr

/-- The parts of a number's literal. -/
structure Numeral where
  negative : Bool
  /-- The digits in front of the point. -/
  whole : List Char
  /-- The digits behind the point, if there is one. -/
  fraction : Option (List Char)
  exponent : Option Exponent
deriving DecidableEq, Repr

namespace Numeral

open Decimal (isDigit)

/-- A run of digits at the start of a text, at least one, and the rest. -/
def digits? (text : List Char) : Option (List Char × List Char) :=
  let digits := text.takeWhile isDigit
  if digits.isEmpty then none else some (digits, text.dropWhile isDigit)

/-- The digits in front of the point: a zero stands alone. -/
def whole? (text : List Char) : Option (List Char × List Char) := do
  let (digits, rest) ← digits? text
  -- nothing may follow a leading zero
  if digits.head? = some '0' ∧ digits.length ≠ 1 then none
  return (digits, rest)

/-- The point and the digits behind it, if there is a point. -/
def fraction? : List Char → Option (Option (List Char) × List Char)
  | '.' :: rest => do
    let (digits, rest) ← digits? rest
    return (some digits, rest)
  | rest => some (none, rest)

/-- The sign of an exponent. -/
def exponentSign : List Char → Bool × List Char
  | '-' :: rest => (true, rest)
  | '+' :: rest => (false, rest)
  | rest => (false, rest)

def exponent? : List Char → Option (Option Exponent × List Char)
  | [] => some (none, [])
  | c :: rest =>
    if c = 'e' ∨ c = 'E' then do
      let (negative, rest) := exponentSign rest
      let (digits, rest) ← digits? rest
      return (some ⟨negative, digits⟩, rest)
    else some (none, c :: rest)

/-- The parts of a literal without its minus sign. -/
def unsigned? (negative : Bool) (text : List Char) : Option Numeral := do
  let (whole, rest) ← whole? text
  let (fraction, rest) ← fraction? rest
  let (exponent, rest) ← exponent? rest
  if rest.isEmpty then some ⟨negative, whole, fraction, exponent⟩ else none

/-- **The parts of a literal,** the whole text. -/
def ofLiteral? : List Char → Option Numeral
  | '-' :: text => unsigned? true text
  | text => unsigned? false text

/-- Digits taken into a 64-bit integer as long as it does not overflow, and how many were left. -/
def absorb (significand : Nat) : List Char → Nat × Nat
  | [] => (significand, 0)
  | c :: rest =>
    -- the digits in front of the one that overflows are kept, and all behind it are left
    let next := 10 * significand + (c.toNat - 48)
    if next < UInt64.size then absorb next rest else (significand, rest.length + 1)

/-- The size of the number if it is a 64-bit integer: no point, no exponent, no overflow. -/
def integer? (n : Numeral) : Option Nat :=
  match n.fraction, n.exponent, absorb 0 n.whole with
  | none, none, (size, 0) => some size
  | _, _, _ => none

/-- **A 64-bit natural number.** It has no minus sign, even if it is zero. -/
def natural? (n : Numeral) : Option UInt64 :=
  if n.negative then none else n.integer?.map UInt64.ofNat

/-- A number times a power of ten, which is none when it overflows. A power out of range is applied
in steps; no step is needed once the number has become zero. -/
def scale? (x : Float) (exponent : Int) : Option Float :=
  if h : exponent.natAbs ≤ 308 then
    -- a power within range, which is itself rounded for large exponents
    let power := Decimal.nearestDouble ⟨1, exponent.natAbs⟩
    if 0 ≤ exponent then
      let product := x * power
      if product.isInf then none else some product
    else some (x / power)
  else if x == 0 then some x
  else if 0 ≤ exponent then none
  -- only a negative exponent is applied in steps
  else scale? (x / Decimal.nearestDouble ⟨1, 308⟩) (exponent + 308)
termination_by exponent.natAbs
decreasing_by omega

/-- A number limited to the 32-bit integers. -/
def saturated (n : Int) : Int :=
  max (-2147483648) (min 2147483647 n)

/-- The significand of the number with the power of ten that it counts, leaving the exponent out. -/
def significand (n : Numeral) : Nat × Int :=
  let (whole, left) := absorb 0 n.whole
  let fraction := n.fraction.getD []
  let (all, ignored) := absorb whole fraction
  -- a whole digit left out moves the point up, and a fraction digit taken in moves it down
  (all, (left : Int) - (fraction.length - ignored : Nat))

/-- The size of the number in double precision, or none if it is out of range. An exponent of more
than 32 bits stands for zero or for a number out of range. -/
def magnitude? (n : Numeral) : Option Float :=
  let (significand, start) := n.significand
  let value := (UInt64.ofNat significand).toFloat
  match n.exponent with
  | none => scale? value start
  | some e =>
    let size := Decimal.accumulate 0 e.digits
    if 2147483647 < size then
      if significand ≠ 0 ∧ !e.negative then none else some 0
    else scale? value (saturated (if e.negative then start - size else start + size))

/-- The number in double precision, or none if it is out of range. -/
def double? (n : Numeral) : Option Float :=
  n.magnitude?.map fun x => if n.negative then -x else x

/-- The size of the number if it is read as an integer with its sign: a negative one has 64 bits
with the sign, and there is no negative zero among them. -/
def signedInteger? (n : Numeral) : Option Nat :=
  n.integer?.filter fun size => !n.negative || (size ≠ 0 && size ≤ Nat.pow 2 63)

/-- **The number in single precision,** or none if it is out of the range of double precision. -/
def single? (n : Numeral) : Option Float32 :=
  match n.signedInteger? with
  | some size =>
    let x := (UInt64.ofNat size).toFloat32
    some (if n.negative then -x else x)
  | none => n.double?.map Numeric.narrow

end Numeral

end Skirmish.Json

/-! ## Reading JSON

`Value.ofText?` reads the value that a text stands for, or nothing if the text is not JSON.
Strictly: no comments, no trailing commas, nothing but blanks after the value.

A string is read in two steps. First its pieces, which are plain characters and the 16-bit units of
`\u` escapes; then the characters, where two units that form a surrogate pair make one.
-/

namespace Skirmish.Json

/-- A piece of a string. -/
inductive Piece where
  /-- A character, plain or from an escape with a letter. -/
  | char (c : Char)
  /-- A 16-bit unit. -/
  | unit (n : Nat)
deriving DecidableEq, Repr

namespace Piece

/-- Whether a unit is the first half of a surrogate pair. -/
def isHigh (n : Nat) : Bool :=
  0xd800 ≤ n && n ≤ 0xdbff

/-- Whether a unit is the second half of a surrogate pair. -/
def isLow (n : Nat) : Bool :=
  0xdc00 ≤ n && n ≤ 0xdfff

/-- **The characters of a string.** There is none for half a surrogate pair. -/
def join? (start : String) : List Piece → Option String
  | [] => some start
  | char c :: rest => join? (start.push c) rest
  | unit high :: unit low :: rest =>
    if isHigh high then
      -- two halves make one character beyond the first 65536
      if isLow low then
        join? (start.push (Char.ofNat (0x10000 + (high - 0xd800) * 0x400 + (low - 0xdc00)))) rest
      else none
    else if isLow high then none
    else join? (start.push (Char.ofNat high)) (unit low :: rest)
  | unit n :: rest =>
    if isHigh n || isLow n then none else join? (start.push (Char.ofNat n)) rest

/-- The character of an escape with a letter. -/
def escaped? (c : Char) : Option Char :=
  match c with
  | '"' => some '"'
  | '\\' => some '\\'
  | '/' => some '/'
  | 'b' => some '\x08'
  | 'f' => some '\x0c'
  | 'n' => some '\n'
  | 'r' => some '\r'
  | 't' => some '\t'
  | _ => none

/-- The pieces up to the closing quote, after those already read (the last first), and what follows
the quote. -/
def read? (before : List Piece) : List Char → Option (List Piece × List Char)
  | [] => none
  | '"' :: rest => some (before.reverse, rest)
  | '\\' :: 'u' :: a :: b :: c :: d :: rest =>
    match Decimal.digits? 16 [a, b, c, d] with
    | some n => read? (unit n :: before) rest
    | none => none
  | '\\' :: c :: rest =>
    match escaped? c with
    | some e => read? (char e :: before) rest
    | none => none
  -- a control character has to be escaped
  | c :: rest => if c.toNat < 32 then none else read? (char c :: before) rest

end Piece

/-- The string after an opening quote. -/
def readString? (text : List Char) : Option (Option String × List Char) :=
  (Piece.read? [] text).map fun (pieces, rest) => (Piece.join? "" pieces, rest)

/-- Whether a character may stand between the parts of a text. -/
def isBlank (c : Char) : Bool :=
  c = ' ' || c = '\n' || c = '\t' || c = '\r'

/-- A text without the blanks in front. -/
def skipBlanks (text : List Char) : List Char :=
  text.dropWhile isBlank

/-- Whether a character may occur in a number. -/
def isNumberChar (c : Char) : Bool :=
  Decimal.isDigit c || c = '-' || c = '+' || c = '.' || c = 'e' || c = 'E'

/-- The number at the start of a text. As no such character may follow a number, all of them have to
belong to it. -/
def readNumber? (text : List Char) : Option (Value × List Char) :=
  let literal := text.takeWhile isNumberChar
  (Numeral.ofLiteral? literal).map fun _ => (.number literal, text.dropWhile isNumberChar)

/-- The text after a word. -/
def afterWord? (word text : List Char) : Option (List Char) :=
  if word.isPrefixOf text then some (text.drop word.length) else none

/-- A value that is not composed of others, at the start of a text. -/
def readSimple? : List Char → Option (Value × List Char)
  | '"' :: rest => (readString? rest).map fun (s, rest) => (.string s, rest)
  | 'n' :: rest => (afterWord? ['u', 'l', 'l'] rest).map fun rest => (.null, rest)
  | 't' :: rest => (afterWord? ['r', 'u', 'e'] rest).map fun rest => (.bool true, rest)
  | 'f' :: rest => (afterWord? ['a', 'l', 's', 'e'] rest).map fun rest => (.bool false, rest)
  | text => readNumber? text

/-- The name of a member and its colon, at the start of a text. -/
def readName? (text : List Char) : Option (Option String × List Char) :=
  match skipBlanks text with
  | '"' :: rest => do
    let (name, rest) ← readString? rest
    match skipBlanks rest with
    | ':' :: rest => some (name, rest)
    | _ => none
  | _ => none

namespace Value

mutual

/-- The value at the start of a text, and what follows it. The first argument bounds the length of
the text. -/
def read? : Nat → List Char → Option (Value × List Char)
  | 0, _ => none
  | n + 1, text =>
    match skipBlanks text with
    | '[' :: rest =>
      match skipBlanks rest with
      | ']' :: rest => some (.array [], rest)
      | _ => readItems? n [] rest
    | '\x7b' :: rest =>
      match skipBlanks rest with
      | '\x7d' :: rest => some (.object [], rest)
      | _ => readMembers? n [] rest
    | text => readSimple? text

/-- The items of an array up to its end, after those already read (the last first). -/
def readItems? : Nat → List Value → List Char → Option (Value × List Char)
  | 0, _, _ => none
  | n + 1, before, text =>
    match read? n text with
    | none => none
    | some (item, rest) =>
      match skipBlanks rest with
      | ',' :: rest => readItems? n (item :: before) rest
      | ']' :: rest => some (.array (item :: before).reverse, rest)
      | _ => none

/-- The members of an object up to its end, after those already read (the last first). -/
def readMembers? : Nat → List (Option String × Value) → List Char → Option (Value × List Char)
  | 0, _, _ => none
  | n + 1, before, text =>
    match readName? text with
    | none => none
    | some (name, rest) =>
      match read? n rest with
      | none => none
      | some (value, rest) =>
        match skipBlanks rest with
        | ',' :: rest => readMembers? n ((name, value) :: before) rest
        | '\x7d' :: rest => some (.object ((name, value) :: before).reverse, rest)
        | _ => none

end

/-- **The value that a text stands for.** Each nested call is at least one character further on
after every second step. -/
def ofText? (text : String) : Option Value :=
  let chars := text.toList
  match read? (2 * chars.length + 2) chars with
  | some (value, rest) => if (skipBlanks rest).isEmpty then some value else none
  | none => none

def natural? : Value → Option UInt64
  | number literal => (Numeral.ofLiteral? literal).bind Numeral.natural?
  | _ => none

def single? : Value → Option Float32
  | number literal => (Numeral.ofLiteral? literal).bind Numeral.single?
  | _ => none

end Value

/-! ## Writing JSON

Two forms of the same text: `Value.compact` without any blanks, and `Value.pretty` with one item or
member a line, indented by two blanks for each level. Empty arrays and objects stay on one line in
both.

Strings are written as they are, except for what cannot stand in a literal: quotes, backslashes and
the control characters below the blank.
-/

/-- The escape of a control character, with a letter if it has one of its own. -/
def controlEscape (c : Char) : String :=
  match c.toNat with
  | 8 => "\\b"
  | 9 => "\\t"
  | 10 => "\\n"
  | 12 => "\\f"
  | 13 => "\\r"
  | n => "\\u00" ++ String.ofList [Nat.digitChar (n / 16), Nat.digitChar (n % 16)]

/-- A character of a string. -/
def writeChar (out : String) (c : Char) : String :=
  if c = '"' then out ++ "\\\""
  else if c = '\\' then out ++ "\\\\"
  else if c.toNat < 32 then out ++ controlEscape c
  else out.push c

def writeText (out : String) (text : String) : String :=
  (text.toList.foldl writeChar (out.push '"')).push '"'

/-- Whether a text is laid out on lines. -/
inductive Shape where
  /-- Everything on one line, without blanks. -/
  | compact
  /-- Each item and member on a line. -/
  | pretty
deriving DecidableEq, Repr

/-- What stands in front of an item at a depth. -/
def Shape.lead (depth : Nat) : Shape → String
  | compact => ""
  | pretty => "\n".pushn ' ' (2 * depth)

/-- What stands between a name and its value. -/
def Shape.colon : Shape → String
  | compact => ":"
  | pretty => ": "

namespace Value

mutual

/-- A text continued by a value at a depth. -/
def write (shape : Shape) (depth : Nat) (out : String) : Value → String
  | null => out ++ "null"
  | bool b => out ++ (if b then "true" else "false")
  | number literal => out ++ String.ofList literal
  | string text => writeText out (text.getD "")
  | array [] => out ++ "[]"
  -- the first item has no comma in front
  | array (item :: items) =>
    let first := write shape (depth + 1) (out.push '[' ++ shape.lead (depth + 1)) item
    (writeItems shape (depth + 1) first items ++ shape.lead depth).push ']'
  | object [] => out ++ "\x7b\x7d"
  | object (member :: members) =>
    let first := writeMember shape (depth + 1) (out.push '\x7b' ++ shape.lead (depth + 1)) member
    (writeMembers shape (depth + 1) first members ++ shape.lead depth).push '\x7d'

/-- A text continued by the items after the first. -/
def writeItems (shape : Shape) (depth : Nat) (out : String) : List Value → String
  | [] => out
  | item :: items =>
    writeItems shape depth (write shape depth (out.push ',' ++ shape.lead depth) item) items

/-- A text continued by a member. -/
def writeMember (shape : Shape) (depth : Nat) (out : String) : Option String × Value → String
  | (name, value) => write shape depth (writeText out (name.getD "") ++ shape.colon) value

/-- A text continued by the members after the first. -/
def writeMembers (shape : Shape) (depth : Nat) (out : String) :
    List (Option String × Value) → String
  | [] => out
  | member :: members =>
    writeMembers shape depth
      (writeMember shape depth (out.push ',' ++ shape.lead depth) member) members

end

/-- **The text without blanks.** -/
def compact (v : Value) : String :=
  v.write .compact 0 ""

/-- **The text on lines.** -/
def pretty (v : Value) : String :=
  v.write .pretty 0 ""

def natural (n : UInt64) : Value :=
  number (Decimal.digitText n.toNat)

/-- **How numbers are written:** with a fraction always, and without an exponent from 0.00001 up to
13 digits; of two shortest decimals at the same distance, the even one. What is not finite has no
number. -/
def numberStyle : Decimal.Style where
  tie := .toEven
  positional := fun point => decide (-5 ≤ point ∧ point ≤ 13)
  showFraction := true
  notANumber := "null"
  infinity := "null"
  negativeInfinity := "null"

/-- A single-precision number; null if it is not finite. -/
def single (x : Float32) : Value :=
  if x.isFinite then number (numberStyle.finite x) else null

end Value

end Skirmish.Json
