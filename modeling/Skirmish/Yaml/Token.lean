import Skirmish.Decimal
import Skirmish.Yaml.Scalar

/-!
# The tokens of YAML

A stream as a list of tokens: first the names in it that are no content, then all of it.
-/

/-! ## YAML tags, anchors and directives

The names in a YAML stream that are not content: tags, which give a node a type; anchors, by which
aliases refer to nodes; and directives, which stand in front of a document.

A tag is a sequence of octets, because escapes in it stand for octets. It is written in full between
angle brackets, or as a handle and a suffix, where directives say what the handle stands for.
-/

namespace Skirmish.Yaml

/-- A tag in full. -/
structure Tag where
  octets : List UInt8
deriving DecidableEq, Repr

namespace Tag

/-- The tag with the given characters, all of them ASCII. -/
def ofChars (chars : List Char) : Tag :=
  ⟨chars.map fun c => UInt8.ofNat c.toNat⟩

/-- The beginning of the tags that YAML itself defines. -/
def coreBase : Tag := ofChars "tag:yaml.org,2002:".toList

/-- A tag of YAML's own. -/
def core (name : String) : Tag :=
  ⟨coreBase.octets ++ (ofChars name.toList).octets⟩

/-- The tag that only says that a node has one. -/
def nonSpecific : Tag := ofChars ['!']

/-- Whether the tag is private to the document. -/
def isLocal (t : Tag) : Bool :=
  t.octets.head? = some 33

/-- Whether the octets stand for characters. -/
def isText (t : Tag) : Bool :=
  (String.fromUTF8? ⟨t.octets.toArray⟩).isSome

end Tag

/-- The handle and the suffix of a tag as it is written. The handle is empty if the suffix is the
tag in full. -/
structure Shorthand where
  /-- The part that directives define. -/
  handle : List Char
  suffix : Tag
deriving DecidableEq, Repr

/-- Whether a character may occur in a tag. Commas and square brackets may do so only where they
cannot be taken for the punctuation of a collection. -/
def isTagChar (anywhere : Bool) (c : Cell) : Bool :=
  c.isName || c.isIn ";/?:@&=+$.!~*'()".toList || (anywhere && c.isIn [',', '[', ']'])

/-- How many octets follow the first octet of a character. -/
def octetsAfter? (first : Nat) : Option Nat :=
  if first < 0x80 then some 0
  else if 0xc0 ≤ first ∧ first < 0xe0 then some 1
  else if 0xe0 ≤ first ∧ first < 0xf0 then some 2
  else if 0xf0 ≤ first ∧ first < 0xf8 then some 3
  else none

/-- How many octets are missing after one more, when `missing` were missing before it. -/
def missingAfter? (missing octet : Nat) : Option Nat :=
  if missing = 0 then octetsAfter? octet
  else if 0x80 ≤ octet ∧ octet < 0xc0 then some (missing - 1)
  else none

/-- The octets at the start of a text that may belong to a tag. As long as octets of an escaped
character are missing, only escapes may follow. -/
def tagOctets? (anywhere : Bool) : Nat → List Cell → Option (List UInt8 × List Cell)
  | missing, [] => if missing = 0 then some ([], []) else none
  | missing, c :: rest =>
    if c.char = '%' then
      match rest with
      | high :: low :: rest' => do
        let octet ← Decimal.digits? 16 [high.char, low.char]
        let missing ← missingAfter? missing octet
        let (octets, rest) ← tagOctets? anywhere missing rest'
        return (UInt8.ofNat octet :: octets, rest)
      | _ => none
    else if missing ≠ 0 then none
    else if isTagChar anywhere c then do
      let (octets, rest) ← tagOctets? anywhere 0 rest
      return (UInt8.ofNat c.char.toNat :: octets, rest)
    else some ([], c :: rest)

/-- A tag that is not empty, at the start of a text. -/
def fullTag? (cells : List Cell) : Option (Tag × List Cell) := do
  let (octets, rest) ← tagOctets? true 0 cells
  if octets.isEmpty then none else some (⟨octets⟩, rest)

/-- A name between two exclamation marks, from behind the first: the name, whether there is a second
mark, and what follows. -/
def handleName (cells : List Cell) : List Char × Bool × List Cell :=
  let name := chars (cells.takeWhile Cell.isName)
  match cells.dropWhile Cell.isName with
  | c :: rest => if c.char = '!' then (name, true, rest) else (name, false, c :: rest)
  | [] => (name, false, [])

/-- A tag in angle brackets, from behind the opening one. -/
def verbatimTag? (cells : List Cell) : Option (Shorthand × List Cell) := do
  let (tag, rest) ← fullTag? cells
  match rest with
  | c :: rest => if c.char = '>' then some (⟨[], tag⟩, rest) else none
  | [] => none

/-- A tag with a handle, from behind its first exclamation mark. Without a second mark, the name is
the beginning of the suffix; the mark alone is a tag in full. -/
def shortTag? (cells : List Cell) : Option (Shorthand × List Cell) := do
  let (name, closed, rest) := handleName cells
  let (octets, after) ← tagOctets? false 0 rest
  if closed then
    if octets.isEmpty then none else some (⟨'!' :: name ++ ['!'], ⟨octets⟩⟩, after)
  else
    let suffix : Tag := ⟨(Tag.ofChars name).octets ++ octets⟩
    if suffix.octets.isEmpty then some (⟨[], .nonSpecific⟩, after)
    else some (⟨['!'], suffix⟩, after)

/-- **A tag,** from behind its first exclamation mark. A space follows it, or inside brackets a
comma. -/
def tag? (inFlow : Bool) (cells : List Cell) : Option (Shorthand × List Cell) := do
  let (shorthand, rest) ←
    match cells with
    | c :: rest => if c.char = '<' then verbatimTag? rest else shortTag? cells
    | [] => shortTag? []
  if atSpace rest || (inFlow && nextIsIn [','] rest) then some (shorthand, rest) else none

/-- **The name of an anchor or an alias.** It ends at a space or at certain punctuation. -/
def anchorName? (cells : List Cell) : Option (String × List Cell) :=
  let name := cells.takeWhile Cell.isName
  let rest := cells.dropWhile Cell.isName
  if name.isEmpty then none
  else if atSpace rest || nextIsIn ['?', ':', ',', ']', '\x7d', '%', '@', '\x60'] rest then
    some (String.ofList (chars name), rest)
  else none

/-- What stands in front of a document. -/
inductive Directive where
  | version (major minor : Nat)
  /-- What a handle stands for. -/
  | handle (handle : List Char) (base : Tag)
deriving DecidableEq, Repr

/-- A number of at most nine digits. -/
def versionNumber? (cells : List Cell) : Option (Nat × List Cell) :=
  let digits := chars (cells.takeWhile fun c => Decimal.isDigit c.char)
  if digits.isEmpty || 9 < digits.length then none
  else some (Decimal.accumulate 0 digits, cells.dropWhile fun c => Decimal.isDigit c.char)

/-- The two numbers of a version. -/
def version? (cells : List Cell) : Option (Directive × List Cell) := do
  let (major, rest) ← versionNumber? cells
  match rest with
  | c :: rest =>
    if c.char = '.' then
      let (minor, rest) ← versionNumber? rest
      return (.version major minor, rest)
    else none
  | [] => none

/-- A handle and what it stands for. -/
def handle? : List Cell → Option (Directive × List Cell)
  | [] => none
  | c :: rest => do
    if c.char ≠ '!' then none
    let (name, closed, rest) := handleName rest
    if !closed && !name.isEmpty then none
    match rest with
    | [] => none
    | d :: _ =>
      if !d.isBlank then none
      else
        let (base, after) ← fullTag? (skipBlanks rest)
        if atSpace after then
          return (.handle ('!' :: name ++ (if closed then ['!'] else [])) base, after)
        else none

/-- **A directive,** from behind its percent sign to the end of its line. -/
def directive? (cells : List Cell) : Option (Directive × List Cell) := do
  let name := String.ofList (chars (cells.takeWhile Cell.isName))
  let rest := cells.dropWhile Cell.isName
  if !atSpace rest then none
  let (directive, rest) ←
    if name = "YAML" then version? (skipBlanks rest)
    else if name = "TAG" then handle? (skipBlanks rest)
    else none
  let rest ← skipLineEnd? rest
  return (directive, rest)

/-! ## YAML tokens

A stream as a list of tokens: its punctuation, its names, and its scalars. Indentation has become
punctuation too: `blockSequenceStart` and `blockMappingStart` open a collection where a line is
indented deeper, and `blockEnd` closes it.

A mapping key in front of a colon is recognised only when the colon comes. Until then its place is
kept open by an empty slot; the colon puts the `key` token there, after the start of the mapping if
the key opens one. A place is given up when the line ends.
-/

inductive Token where
  | directive (directive : Directive)
  | documentStart
  | documentEnd
  | blockSequenceStart
  | blockMappingStart
  | blockEnd
  | flowSequenceStart
  | flowSequenceEnd
  | flowMappingStart
  | flowMappingEnd
  | blockEntry
  | flowEntry
  | key
  | value
  | alias (name : String)
  | anchor (name : String)
  | tag (shorthand : Shorthand)
  | scalar (style : Style) (text : String)
deriving DecidableEq, Repr

/-- A place where a key may turn out to stand. -/
structure Candidate where
  /-- The slot that is kept open. -/
  slot : Nat
  /-- Whether nothing but a key can stand there. -/
  required : Bool
  place : Cell

/-- What is known between two tokens. -/
structure Lexer where
  /-- The tokens so far, in slots. -/
  slots : Array (List Token)
  /-- The column of the innermost block collection, −1 for none. -/
  indent : Int
  /-- The columns of the collections around it. -/
  outer : List Int
  /-- The candidate of each open bracket, the innermost first, and last the one outside of all. -/
  candidates : List (Option Candidate)
  /-- Whether a key may begin here. -/
  keyAllowed : Bool

namespace Lexer

def start : Lexer := ⟨#[], -1, [], [none], true⟩

def inFlow (l : Lexer) : Bool :=
  1 < l.candidates.length

def emit (token : Token) (l : Lexer) : Lexer :=
  { l with slots := l.slots.push [token] }

/-- A change of whether a key may begin. -/
def allowing (allowed : Bool) (l : Lexer) : Lexer :=
  { l with keyAllowed := allowed }

/-- The candidate on this level, replaced. -/
def withCandidate (candidate : Option Candidate) (l : Lexer) : Lexer :=
  { l with candidates := candidate :: l.candidates.drop 1 }

def candidate? (l : Lexer) : Option Candidate :=
  l.candidates.head?.join

/-- **Giving up the candidate** on this level. It must not be a required one. -/
def giveUp? (l : Lexer) : Option Lexer :=
  match l.candidate? with
  | some c => if c.required then none else some (l.withCandidate none)
  | none => some l

/-- Whether a candidate is too far away: on another line, or more than 1024 characters. -/
def isStale (here : Cell) (c : Candidate) : Bool :=
  c.place.line < here.line || c.place.index + 1024 < here.index

/-- The candidates of all levels that are not too far away. A required one must not be. -/
def dropStale? (here : Cell) (l : Lexer) : Option Lexer := do
  let candidates ← l.candidates.mapM fun
    | some c => if isStale here c then (if c.required then none else some none) else some (some c)
    | none => some none
  return { l with candidates := candidates }

/-- **A new candidate** here, if a key may begin. It is required where the innermost block
collection continues. -/
def offer? (here : Cell) (l : Lexer) : Option Lexer := do
  if !l.keyAllowed then return l
  let l ← l.giveUp?
  let required := !l.inFlow && l.indent = here.column
  -- the slot is left empty for a key that may never come
  let candidate : Candidate := ⟨l.slots.size, required, here⟩
  return { l with slots := l.slots.push [] }.withCandidate (some candidate)

/-- Closing the block collections that are indented deeper than a column. -/
def unroll (column : Int) (l : Lexer) : Lexer :=
  if l.inFlow then l else close column l.indent l.outer l
where
  /-- One collection after another. -/
  close (column indent : Int) : List Int → Lexer → Lexer
    | outer, l =>
      -- a line that is not indented less leaves the collection open
      if indent ≤ column then { l with indent := indent, outer := outer }
      else
        match outer with
        | [] => { l with indent := -1, outer := [] }.emit .blockEnd
        | next :: outer => close column next outer (l.emit .blockEnd)

/-- Whether a block collection opens at a column. -/
def opens (column : Nat) (l : Lexer) : Bool :=
  !l.inFlow && l.indent < column

/-- The column of a new innermost block collection. -/
def nest (column : Nat) (l : Lexer) : Lexer :=
  { l with indent := column, outer := l.indent :: l.outer }

/-- Opening a block collection at a column, if it is indented deeper. -/
def roll (column : Nat) (opening : Token) (l : Lexer) : Lexer :=
  if l.opens column then (l.nest column).emit opening else l

def openBracket? (here : Cell) (token : Token) (l : Lexer) : Option Lexer := do
  let l ← l.offer? here
  return { l with candidates := none :: l.candidates, keyAllowed := true }.emit token

def closeBracket? (token : Token) (l : Lexer) : Option Lexer := do
  let l ← l.giveUp?
  let candidates := if l.inFlow then l.candidates.drop 1 else l.candidates
  return { l with candidates := candidates, keyAllowed := false }.emit token

def comma? (l : Lexer) : Option Lexer := do
  let l ← l.giveUp?
  return (l.allowing true).emit .flowEntry

/-- A dash in front of an item. -/
def dash? (here : Cell) (l : Lexer) : Option Lexer := do
  if !l.inFlow && !l.keyAllowed then none
  let l ← (l.roll here.column .blockSequenceStart).giveUp?
  return (l.allowing true).emit .blockEntry

/-- A question mark in front of a key. -/
def question? (here : Cell) (l : Lexer) : Option Lexer := do
  if !l.inFlow && !l.keyAllowed then none
  let l ← (l.roll here.column .blockMappingStart).giveUp?
  return (l.allowing !l.inFlow).emit .key

/-- **A colon in front of a value.** The candidate becomes a key, if there is one. -/
def colon? (here : Cell) (l : Lexer) : Option Lexer :=
  match l.candidate? with
  | some c =>
    -- the collection opens where the key began, not at its colon
    let column := c.place.column
    let opens := l.opens column
    let tokens := if opens then [.blockMappingStart, .key] else [.key]
    let l := if opens then l.nest column else l
    let l := { l with slots := l.slots.setIfInBounds c.slot tokens, keyAllowed := false }
    some ((l.withCandidate none).emit .value)
  | none =>
    if !l.inFlow && !l.keyAllowed then none
    else
      let l := l.roll here.column .blockMappingStart
      some ((l.allowing !l.inFlow).emit .value)

/-- A mark between documents. -/
def mark? (token : Token) (l : Lexer) : Option Lexer := do
  let l ← (l.unroll (-1)).giveUp?
  return (l.allowing false).emit token

/-- A token that a key may begin with. -/
def word? (here : Cell) (token : Token) (allowed : Bool) (l : Lexer) : Option Lexer := do
  let l ← l.offer? here
  return (l.allowing allowed).emit token

/-- A scalar on lines of its own. -/
def ownLines? (style : Style) (text : List Char) (l : Lexer) : Option Lexer := do
  let l ← l.giveUp?
  return (l.allowing true).emit (.scalar style (String.ofList text))

def finish? (l : Lexer) : Option (List Token) := do
  let l ← (l.unroll (-1)).giveUp?
  return l.slots.toList.flatten

/-- Whether a cell is one of the characters that mean something at the start of a token. -/
def isIndicator (c : Cell) : Bool :=
  c.isIn "-?:,[]\x7b\x7d#&*!|>'\"%@\x60".toList

/-- Whether a plain scalar can start with a character in front of others. -/
def startsPlain (inFlow : Bool) (c : Cell) (rest : List Cell) : Bool :=
  (!c.isSpace && !isIndicator c)
    || (c.char = '-' && !(rest.head?.any Cell.isBlank))
    || (!inFlow && (c.char = '?' || c.char = ':') && !atSpace rest)

/-- A plain scalar. A key may begin behind it if it ended after a line break. -/
def plainToken? (here : Cell) (cells : List Cell) (l : Lexer) : Option (Lexer × List Cell) := do
  let p ← plain? l.inFlow (l.indent + 1).toNat cells
  let l ← l.word? here (.scalar .plain (String.ofList p.text)) p.broken
  return (l, p.rest)

/-- **The token at the start of a text,** which is not a space, and what follows it. -/
def token? (c : Cell) (rest : List Cell) (l : Lexer) : Option (Lexer × List Cell) :=
  let cells := c :: rest
  let flow := l.inFlow
  let after (l : Option Lexer) : Option (Lexer × List Cell) := l.map (·, rest)
  if c.column = 0 && c.char = '%' then do
    let (directive, rest) ← directive? rest
    return (← l.mark? (.directive directive), rest)
  -- three dashes or dots come before a dash alone and before plain scalars
  else if startsWithThree '-' cells then (l.mark? .documentStart).map (·, cells.drop 3)
  else if startsWithThree '.' cells then (l.mark? .documentEnd).map (·, cells.drop 3)
  else if c.char = '[' then after (l.openBracket? c .flowSequenceStart)
  else if c.char = '\x7b' then after (l.openBracket? c .flowMappingStart)
  else if c.char = ']' then after (l.closeBracket? .flowSequenceEnd)
  else if c.char = '\x7d' then after (l.closeBracket? .flowMappingEnd)
  else if c.char = ',' then after l.comma?
  else if c.char = '-' && atSpace rest then after (l.dash? c)
  else if c.char = '?' && (flow || atSpace rest) then after (l.question? c)
  else if c.char = ':' && (flow || atSpace rest) then after (l.colon? c)
  else if c.char = '*' then do
    let (name, rest) ← anchorName? rest
    return (← l.word? c (.alias name) false, rest)
  else if c.char = '&' then do
    let (name, rest) ← anchorName? rest
    return (← l.word? c (.anchor name) false, rest)
  else if c.char = '!' then do
    let (shorthand, rest) ← tag? flow rest
    return (← l.word? c (.tag shorthand) false, rest)
  else if !flow && c.char = '|' then do
    let (text, rest) ← block? .literal l.indent rest
    return (← l.ownLines? .literal text, rest)
  else if !flow && c.char = '>' then do
    let (text, rest) ← block? .folded l.indent rest
    return (← l.ownLines? .folded text, rest)
  else if c.char = '\'' then do
    let (text, rest) ← singleQuoted? rest
    return (← l.word? c (.scalar .singleQuoted (String.ofList text)) false, rest)
  else if c.char = '"' then do
    let (text, rest) ← doubleQuoted? rest
    return (← l.word? c (.scalar .doubleQuoted (String.ofList text)) false, rest)
  else if startsPlain flow c rest then l.plainToken? c cells
  else none

/-- The spaces, comments and line breaks in front of a token left out. A tab counts as a space only
where no key may begin. Outside brackets a key may begin on each new line. -/
def skip (l : Lexer) : List Cell → Lexer × List Cell
  | [] => (l, [])
  | c :: rest =>
    if c.index = 0 && c.char = byteOrderMark then skip l rest
    else if c.char = ' ' || (c.char = '\t' && (l.inFlow || !l.keyAllowed)) then skip l rest
    else if c.isBreak then skip (if l.inFlow then l else l.allowing true) rest
    else if c.char = '#' then skipRemark l rest
    else (l, c :: rest)
where
  /-- The rest of a comment left out. -/
  skipRemark (l : Lexer) : List Cell → Lexer × List Cell
    | [] => (l, [])
    | c :: rest =>
      if c.isBreak then skip (if l.inFlow then l else l.allowing true) rest
      else skipRemark l rest

/-- The tokens of a text. The first argument bounds their number. -/
def run? : Nat → Lexer → List Cell → Option (List Token)
  | 0, _, _ => none
  | n + 1, l, cells =>
    match l.skip cells with
    | (l, []) => l.finish?
    | (l, c :: rest) => do
      -- what the place of the next token decides comes before the token itself
      let l ← l.dropStale? c
      let (l, rest) ← (l.unroll c.column).token? c rest
      run? n l rest

end Lexer

/-- **The tokens of a stream.** -/
def tokens? (text : String) : Option (List Token) := do
  let cells ← cells? text
  Lexer.start.run? (cells.length + 1) cells

end Skirmish.Yaml
