import Skirmish.Decimal

/-!
# The characters and scalars of YAML

A stream of characters with their places, and the ways of writing a text in it.
-/

/-! ## The characters of a YAML stream

A stream is read as a list of cells, characters with their places. Every line break is one cell:
`CR LF`, `CR`, `LF` and the next-line character all become `LF`, while the line and paragraph
separators stay what they are. A place counts the characters in front of it, the lines, and the
characters in front of it on its line.

`cells?` refuses a stream with a character that YAML does not allow.
-/

namespace Skirmish.Yaml

/-- A character and its place. -/
structure Cell where
  char : Char
  /-- How many characters there are in front of it. -/
  index : Nat
  /-- How many lines there are in front of its line. -/
  line : Nat
  /-- How many characters there are in front of it on its line. -/
  column : Nat
deriving DecidableEq, Repr

def lineSeparator : Char := '\u2028'

def paragraphSeparator : Char := '\u2029'

def byteOrderMark : Char := '\ufeff'

/-- Whether YAML allows a character in a stream. -/
def isAllowed (c : Char) : Bool :=
  let n := c.toNat
  n = 9 || n = 10 || n = 13 || (32 ≤ n && n ≤ 126) || n = 0x85 || (0xa0 ≤ n && n ≤ 0xd7ff)
    || (0xe000 ≤ n && n ≤ 0xfffd) || 0x10000 ≤ n

/-- The cells of a text that starts at a place. -/
def cellsFrom (index line column : Nat) : List Char → List Cell
  | [] => []
  | '\r' :: '\n' :: rest => ⟨'\n', index, line, column⟩ :: cellsFrom (index + 2) (line + 1) 0 rest
  | c :: rest =>
    if c = '\r' ∨ c = '\n' ∨ c = '\u0085' then
      ⟨'\n', index, line, column⟩ :: cellsFrom (index + 1) (line + 1) 0 rest
    else if c = lineSeparator ∨ c = paragraphSeparator then
      ⟨c, index, line, column⟩ :: cellsFrom (index + 1) (line + 1) 0 rest
    else ⟨c, index, line, column⟩ :: cellsFrom (index + 1) line (column + 1) rest

/-- A text without the byte order mark in front. -/
def withoutMark : List Char → List Char
  | c :: rest => if c = byteOrderMark then rest else c :: rest
  | [] => []

/-- **The cells of a stream.** A byte order mark in front is not part of it. -/
def cells? (text : String) : Option (List Cell) :=
  let chars := withoutMark text.toList
  if chars.all isAllowed then some (cellsFrom 0 0 0 chars) else none

namespace Cell

/-- Whether the cell is a space or a tab. -/
def isBlank (c : Cell) : Bool :=
  c.char = ' ' || c.char = '\t'

/-- Whether the cell ends a line. -/
def isBreak (c : Cell) : Bool :=
  c.char = '\n' || c.char = lineSeparator || c.char = paragraphSeparator

/-- Whether the cell separates words. -/
def isSpace (c : Cell) : Bool :=
  c.isBlank || c.isBreak

/-- Whether the cell may occur in the name of an anchor or a directive. -/
def isName (c : Cell) : Bool :=
  c.char.isAlphanum || c.char = '_' || c.char = '-'

/-- Whether the cell is one of some characters. -/
def isIn (c : Cell) (chars : List Char) : Bool :=
  chars.contains c.char

end Cell

def chars (cells : List Cell) : List Char :=
  cells.map (·.char)

/-- Whether a word ends here: at a blank, at a line break, or at the end of the stream. -/
def atSpace : List Cell → Bool
  | [] => true
  | c :: _ => c.isSpace

/-- Whether the line ends here. -/
def atLineEnd : List Cell → Bool
  | [] => true
  | c :: _ => c.isBreak

/-- Whether the next character is one of some. -/
def nextIsIn (chars : List Char) : List Cell → Bool
  | [] => false
  | c :: _ => c.isIn chars

/-- What follows the blanks in front. -/
def skipBlanks (cells : List Cell) : List Cell :=
  cells.dropWhile Cell.isBlank

/-- What follows a comment in front, if there is one: the end of its line. -/
def skipComment (cells : List Cell) : List Cell :=
  match cells with
  | c :: rest => if c.char = '#' then rest.dropWhile (!·.isBreak) else cells
  | [] => []

/-- The rest of a line with nothing on it but blanks and a comment, left out. -/
def skipLineEnd? (cells : List Cell) : Option (List Cell) :=
  match skipComment (skipBlanks cells) with
  | [] => some []
  | c :: rest => if c.isBreak then some rest else none

/-- Whether a line starts here with three equal characters and then a space. -/
def startsWithThree (mark : Char) : List Cell → Bool
  | a :: b :: c :: rest =>
    a.column = 0 && a.char = mark && b.char = mark && c.char = mark && atSpace rest
  | _ => false

/-- Whether a line starts here that begins or ends a document. -/
def atDocumentMark (cells : List Cell) : Bool :=
  startsWithThree '-' cells || startsWithThree '.' cells

/-! ## YAML scalars

The ways of writing a text, each as a function on the cells from where the text starts:

* `plain?` — without quotes, up to what cannot belong to it;
* `singleQuoted?` and `doubleQuoted?` — in quotes, the latter with escapes;
* `block?` — on indented lines of its own, kept as they are or folded.

What stands between two words of a plain or quoted scalar is a `Gap`. Blanks on one line are kept. A
single line break is folded into a space, and of several all but the first are kept. Separators of
lines and paragraphs are never folded.
-/

/-- How a scalar is written. -/
inductive Style where
  | plain
  | singleQuoted
  | doubleQuoted
  /-- On lines of its own, which are kept. -/
  | literal
  /-- On lines of its own, which are folded. -/
  | folded
deriving DecidableEq, Repr

/-- What stands between two words. -/
structure Gap where
  /-- The blanks, if there is no line break. -/
  blanks : List Char
  /-- Whether there is a line break, counting one that is escaped. -/
  broken : Bool
  first : Option Char
  more : List Char

namespace Gap

/-- The gap of nothing. -/
def none : Gap := ⟨[], false, .none, []⟩

/-- The gap after an escaped line break. -/
def escaped : Gap := ⟨[], true, .none, []⟩

/-- **The text that a gap stands for.** -/
def text (g : Gap) : List Char :=
  if g.broken then
    match g.first, g.more with
    -- a single line break is folded, and of several the first one goes
    | some '\n', [] => [' ']
    | some '\n', more => more
    | first, more => first.toList ++ more
  else g.blanks

/-- The gap continued by the spaces at the start of a text. No tab may stand in front of the column
`indent` on a line that the gap has begun. -/
def extend? (indent : Nat) (g : Gap) : List Cell → Option (Gap × List Cell)
  | [] => some (g, [])
  | c :: rest =>
    if c.isBlank then
      if !g.broken then extend? indent { g with blanks := g.blanks ++ [c.char] } rest
      else if c.char = '\t' && c.column < indent then .none
      else extend? indent g rest
    else if c.isBreak then
      if !g.broken then extend? indent ⟨[], true, some c.char, []⟩ rest
      else extend? indent { g with more := g.more ++ [c.char] } rest
    else some (g, c :: rest)

end Gap

/-! ## Plain scalars -/

/-- The word at the start of a text. It ends at a space or a colon with a space behind it, and
inside brackets also at a comma or a bracket. Inside brackets no colon may stand in front of one of
these. -/
def plainWord? (inFlow : Bool) : List Cell → Option (List Char × List Cell)
  | [] => some ([], [])
  | c :: rest =>
    if c.isSpace then some ([], c :: rest)
    else if inFlow && c.char = ':' && nextIsIn [',', '?', '[', ']', '\x7b', '\x7d'] rest then none
    else if (c.char = ':' && atSpace rest)
        || (inFlow && c.isIn [',', '[', ']', '\x7b', '\x7d']) then
      some ([], c :: rest)
    else (plainWord? inFlow rest).map fun (word, rest) => (c.char :: word, rest)

/-- What was read of a plain scalar. -/
structure Plain where
  text : List Char
  /-- Whether it ended after a line break. -/
  broken : Bool
  rest : List Cell

/-- Whether nothing more of a plain scalar can follow on a line. -/
def endsPlain (cells : List Cell) : Bool :=
  atDocumentMark cells || nextIsIn ['#'] cells

/-- A plain scalar continued after a gap. The first argument bounds the number of words. -/
def plainFrom? (inFlow : Bool) (indent : Nat) :
    Nat → List Char → Gap → List Cell → Option Plain
  | 0, _, _, _ => none
  | n + 1, before, gap, cells =>
    if endsPlain cells then some ⟨before, gap.broken, cells⟩
    else do
      let (word, rest) ← plainWord? inFlow cells
      -- a gap without a word behind it belongs to no scalar
      let text := if word.isEmpty then before else before ++ gap.text ++ word
      let gap := if word.isEmpty then gap else .none
      match rest with
      | [] => some ⟨text, gap.broken, []⟩
      | c :: _ =>
        if !c.isSpace then some ⟨text, gap.broken, rest⟩
        else
          let (gap, rest) ← Gap.none.extend? indent rest
          match rest with
          | [] => some ⟨text, gap.broken, []⟩
          | d :: _ =>
            -- a line that is indented less is not a continuation
            if !inFlow && d.column < indent then some ⟨text, gap.broken, rest⟩
            else plainFrom? inFlow indent n text gap rest

/-- **A plain scalar.** Its continuation lines start at the column `indent` or behind it, except
inside brackets. -/
def plain? (inFlow : Bool) (indent : Nat) (cells : List Cell) : Option Plain :=
  plainFrom? inFlow indent (cells.length + 1) [] .none cells

/-! ## Quoted scalars -/

/-- A word in single quotes, where a quote is written twice. -/
def singleWord : List Cell → List Char × List Cell
  | [] => ([], [])
  | c :: rest =>
    if c.isSpace then ([], c :: rest)
    else if c.char = '\'' then
      match rest with
      | d :: rest' =>
        if d.char = '\'' then
          let (word, rest) := singleWord rest'
          ('\'' :: word, rest)
        else ([], c :: rest)
      | [] => ([], c :: rest)
    else
      let (word, rest) := singleWord rest
      (c.char :: word, rest)

/-- The character of an escape with one letter. -/
def escapedChar? (c : Char) : Option Char :=
  match c with
  | '0' => some '\x00'
  | 'a' => some '\x07'
  | 'b' => some '\x08'
  | 't' => some '\t'
  | '\t' => some '\t'
  | 'n' => some '\n'
  | 'v' => some '\x0b'
  | 'f' => some '\x0c'
  | 'r' => some '\r'
  | 'e' => some '\x1b'
  | ' ' => some ' '
  | '"' => some '"'
  | '/' => some '/'
  | '\\' => some '\\'
  | 'N' => some '\u0085'
  | '_' => some '\u00a0'
  | 'L' => some lineSeparator
  | 'P' => some paragraphSeparator
  | _ => none

/-- How many digits follow the letter of an escape by number. -/
def escapeLength? (c : Char) : Option Nat :=
  match c with
  | 'x' => some 2
  | 'u' => some 4
  | 'U' => some 8
  | _ => none

/-- The character with a number. -/
def numberedChar? (n : Nat) : Option Char :=
  if (0xd800 ≤ n ∧ n ≤ 0xdfff) ∨ 0x10ffff < n then none else some (Char.ofNat n)

/-- A word in double quotes, and whether an escaped line break ended it. The first argument is the
escape by number that is being read: how many digits are missing, and the value of the others. -/
def doubleWord? : Option (Nat × Nat) → List Cell → Option (List Char × Bool × List Cell)
  | some _, [] => none
  | none, [] => some ([], false, [])
  | some (missing, value), c :: rest => do
    let digit ← Decimal.digitValue? c.char
    let value := 16 * value + digit
    if missing ≤ 1 then
      let char ← numberedChar? value
      let (word, escaped, rest) ← doubleWord? none rest
      return (char :: word, escaped, rest)
    else doubleWord? (some (missing - 1, value)) rest
  | none, c :: rest =>
    if c.isSpace || c.char = '"' then some ([], false, c :: rest)
    else if c.char = '\\' then
      match rest with
      | [] => none
      | d :: rest' =>
        if d.isBreak then some ([], true, rest')
        else
          match escapedChar? d.char, escapeLength? d.char with
          | some char, _ => do
            let (word, escaped, rest) ← doubleWord? none rest'
            return (char :: word, escaped, rest)
          | none, some length => doubleWord? (some (length, 0)) rest'
          | none, none => none
    else do
      let (word, escaped, rest) ← doubleWord? none rest
      return (c.char :: word, escaped, rest)

/-- A word of a quoted scalar, and whether an escaped line break ended it. -/
def quotedWord? (double : Bool) (cells : List Cell) : Option (List Char × Bool × List Cell) :=
  if double then doubleWord? none cells
  else
    let (word, rest) := singleWord cells
    some (word, false, rest)

/-- A quoted scalar continued, up to its closing quote. The first argument bounds the number of
words. -/
def quotedFrom? (double : Bool) : Nat → List Char → List Cell → Option (List Char × List Cell)
  | 0, _, _ => none
  | n + 1, before, cells =>
    if atDocumentMark cells then none
    else do
      let (word, escaped, rest) ← quotedWord? double cells
      let text := before ++ word
      match rest with
      | [] => none
      | c :: after =>
        if c.char = (if double then '"' else '\'') then some (text, after)
        else
          let (gap, rest) ← (if escaped then Gap.escaped else Gap.none).extend? 0 rest
          quotedFrom? double n (text ++ gap.text) rest

/-- **A scalar in single quotes,** from behind the opening quote. -/
def singleQuoted? (cells : List Cell) : Option (List Char × List Cell) :=
  quotedFrom? false (cells.length + 1) [] cells

/-- **A scalar in double quotes,** from behind the opening quote. -/
def doubleQuoted? (cells : List Cell) : Option (List Char × List Cell) :=
  quotedFrom? true (cells.length + 1) [] cells

/-! ## Block scalars -/

/-- What becomes of the line breaks at the end of a block scalar. -/
inductive Chomping where
  | strip
  | clip
  | keep
deriving DecidableEq, Repr

/-- The chomping indicator at the start of a text, if there is one. -/
def chomping : List Cell → Option Chomping × List Cell
  | [] => (none, [])
  | c :: rest =>
    if c.char = '-' then (some .strip, rest)
    else if c.char = '+' then (some .keep, rest)
    else (none, c :: rest)

/-- The indentation indicator at the start of a text, zero if there is none. It is not written as a
zero. -/
def indentation? : List Cell → Option (Nat × List Cell)
  | [] => some (0, [])
  | c :: rest =>
    if c.char = '0' then none
    else if Decimal.isDigit c.char then some (c.char.toNat - 48, rest)
    else some (0, c :: rest)

/-- The header of a block scalar: its chomping and its indentation, in either order. -/
def blockHeader? (cells : List Cell) : Option (Chomping × Nat × List Cell) :=
  match chomping cells with
  | (some c, rest) => do
    let (increment, rest) ← indentation? rest
    return (c, increment, rest)
  | (none, rest) => do
    let (increment, rest) ← indentation? rest
    if increment = 0 then return (.clip, 0, rest)
    else
      let (c, rest) := chomping rest
      return (c.getD .clip, increment, rest)

/-- The indentation and the empty lines in front of a line with content: the deepest indentation
met, the line breaks, and the content. The indentation `indent` is zero while it is not known. -/
def blockGap? (indent deepest : Nat) (breaks : List Char) :
    List Cell → Option (Nat × List Char × List Cell)
  | [] => some (deepest, breaks, [])
  | c :: rest =>
    -- as long as the indentation is not known, every space is a part of it
    let inside := indent = 0 || c.column < indent
    if inside && c.char = ' ' then blockGap? indent deepest breaks rest
    else if inside && c.char = '\t' then none
    else if c.isBreak then blockGap? indent (max deepest c.column) (breaks ++ [c.char]) rest
    else some (max deepest c.column, breaks, c :: rest)

/-- The break that joins a line to the one before. It is folded into a space between two lines that
do not start with a blank, and left out there if empty lines follow it. -/
def foldedBreak (style : Style) (break? : Option Char) (blankBefore blankHere : Bool)
    (breaks : List Char) : List Char :=
  if style = .folded && break? = some '\n' && !blankBefore && !blankHere then
    if breaks.isEmpty then [' '] else []
  else break?.toList

/-- What was read of a block scalar. -/
structure Block where
  /-- The text without the line breaks at the end. -/
  text : List Char
  /-- The line break of the last line. -/
  last : Option Char
  /-- The line breaks of the empty lines behind it. -/
  breaks : List Char
  rest : List Cell

/-- The lines of a block scalar. The first argument bounds their number. -/
def blockLines? (style : Style) (indent : Nat) : Nat → Bool → Block → Option Block
  | 0, _, _ => none
  | n + 1, blankBefore, b =>
    match b.rest with
    | [] => some b
    | c :: _ =>
      if c.column ≠ indent then some b
      else do
        let line := b.rest.takeWhile (!·.isBreak)
        let after := b.rest.dropWhile (!·.isBreak)
        -- the break in front of a line is decided when the line is seen
        let joint := foldedBreak style b.last blankBefore c.isBlank b.breaks ++ b.breaks
        let (_, breaks, rest) ← blockGap? indent 0 [] (after.drop 1)
        blockLines? style indent n c.isBlank
          ⟨b.text ++ joint ++ chars line, after.head?.map (·.char), breaks, rest⟩

/-- **A block scalar,** from behind its indicator, in a collection indented by `parent` (−1 for
none). Its indentation is that of its first line if the header does not give it. -/
def block? (style : Style) (parent : Int) (cells : List Cell) : Option (List Char × List Cell) := do
  let (chomping, increment, rest) ← blockHeader? cells
  let rest ← skipLineEnd? rest
  -- a given indentation counts from the collection around
  let fixed := if increment = 0 then 0 else (max parent 0).toNat + increment
  let (deepest, breaks, rest) ← blockGap? fixed 0 [] rest
  let indent := if fixed = 0 then max deepest (max (parent + 1) 1).toNat else fixed
  let b ← blockLines? style indent (rest.length + 1) false ⟨[], none, breaks, rest⟩
  let ending :=
    match chomping with
    | .strip => []
    | .clip => b.last.toList
    | .keep => b.last.toList ++ b.breaks
  return (b.text ++ ending, b.rest)

end Skirmish.Yaml
