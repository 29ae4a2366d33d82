import Skirmish.Yaml.Token

/-!
# YAML documents

The tokens of a stream as a tree of nodes:

* `Node` — scalars, sequences, mappings, and aliases of other nodes;
* `Document.ofText?` — the one document of a stream.

Anchors are numbered in the order in which their names first occur, except that a name used again
gets the number that a new name would get. So a number can be taken twice, and then it belongs to
the node that began last. An alias stands for the number that its name had at that point of the
stream, and what that number finally belongs to.
-/

namespace Skirmish.Yaml

structure Scalar where
  tag : Option Tag
  style : Style
  text : String
deriving DecidableEq, Repr

/-- A node of a document. -/
inductive Node where
  | scalar (scalar : Scalar)
  | sequence (tag : Option Tag) (items : List Node)
  | mapping (tag : Option Tag) (entries : List (Node × Node))
  /-- The node with an anchor. -/
  | alias (anchor : Nat)

namespace Node

/-- The node of nothing written. -/
def blank : Node := scalar ⟨none, .plain, ""⟩

mutual

/-- How many steps it takes to read through a node: one for a scalar or an alias, and two for a
collection besides its contents. -/
def extent : Node → Nat
  | .scalar _ => 1
  | .alias _ => 1
  | .sequence _ items => extentOfItems items + 2
  | .mapping _ entries => extentOfEntries entries + 2

def extentOfItems : List Node → Nat
  | [] => 0
  | item :: items => extent item + extentOfItems items

def extentOfEntry : Node × Node → Nat
  | (key, value) => extent key + extent value

def extentOfEntries : List (Node × Node) → Nat
  | [] => 0
  | entry :: entries => extentOfEntry entry + extentOfEntries entries

end

end Node

structure Document where
  root : Node
  /-- The nodes with anchors. The first entry of a number counts. -/
  anchored : List (Nat × Node)

/-- How far the nodes of a stream have been read. -/
structure Progress where
  tokens : List Token
  /-- The number of each anchor name. -/
  names : List (String × Nat)
  /-- The nodes with anchors, those that began last in front. -/
  anchored : List (Nat × Node)

namespace Progress

def facing (p : Progress) (tokens : List Token) : Progress :=
  { p with tokens := tokens }

/-- The number of a new anchor. -/
def define (name : Option String) (p : Progress) : Option Nat × Progress :=
  match name with
  | none => (none, p)
  | some name =>
    let number := p.names.length
    -- an anchor of the same name is hidden from here on
    let others := p.names.filter (·.1 ≠ name)
    (some number, { p with names := (name, number) :: others })

/-- A node put on record under its number. Those in `inner` began later than it, the others before.
-/
def record (number : Option Nat) (node : Node) (before : List (Nat × Node)) (p : Progress) :
    Progress :=
  match number with
  | some n => { p with anchored := p.anchored ++ (n, node) :: before }
  | none => { p with anchored := p.anchored ++ before }

end Progress

/-- What stands in front of a node's content. -/
structure Properties where
  anchor : Option String
  /-- Its tag as it is written. -/
  tag : Option Shorthand

/-- An anchor and a tag in either order, each at most once. -/
def properties : List Token → Properties × List Token
  | .anchor name :: .tag shorthand :: rest => (⟨some name, some shorthand⟩, rest)
  | .anchor name :: rest => (⟨some name, none⟩, rest)
  | .tag shorthand :: .anchor name :: rest => (⟨some name, some shorthand⟩, rest)
  | .tag shorthand :: rest => (⟨none, some shorthand⟩, rest)
  | rest => (⟨none, none⟩, rest)

/-- What the handles of a document stand for. -/
abbrev Handles : Type := List (List Char × Tag)

/-- The handles that need no directive. -/
def usualHandles : Handles :=
  [(['!'], .nonSpecific), (['!', '!'], .coreBase)]

/-- The tag that a shorthand stands for. -/
def Shorthand.tag? (handles : Handles) (s : Shorthand) : Option Tag :=
  if s.handle.isEmpty then some s.suffix
  else (handles.lookup s.handle).map fun base => ⟨base.octets ++ s.suffix.octets⟩

/-- The tag of a node, if it has one. -/
def Properties.tag? (handles : Handles) (p : Properties) : Option (Option Tag) :=
  match p.tag with
  | none => some none
  | some shorthand => (shorthand.tag? handles).map some

/-- Whether a token ends the value of a block mapping that is not there. -/
def endsBlockValue : List Token → Bool
  | .key :: _ => true
  | .value :: _ => true
  | .blockEnd :: _ => true
  | _ => false

/-- Whether a token ends the item of a block sequence that is not there. -/
def endsBlockItem : List Token → Bool
  | .blockEntry :: _ => true
  | .blockEnd :: _ => true
  | _ => false

/-- Whether a token ends the item of a sequence that is not indented, if the item is not there. -/
def endsUnindentedItem (tokens : List Token) : Bool :=
  endsBlockItem tokens || endsBlockValue tokens

/-- Whether a token ends the value in a flow collection that is not there. -/
def endsFlowValue (closing : Token) : List Token → Bool
  | .flowEntry :: _ => true
  | t :: _ => t = closing
  | [] => false

/-- Whether a token ends the key in a flow collection that is not there. -/
def endsFlowKey (closing : Token) : List Token → Bool
  | .value :: _ => true
  | tokens => endsFlowValue closing tokens

namespace Node

mutual

/-- The node at the start of the tokens. A block collection may start here only if `block` holds,
and a sequence that is not indented only if `unindented` holds. The first argument of this function
and of those below bounds the number of tokens. -/
def read? (handles : Handles) :
    Nat → (block unindented : Bool) → Progress → Option (Node × Progress)
  | 0, _, _, _ => none
  | n + 1, block, unindented, p =>
    match p.tokens with
    | .alias name :: rest => (p.names.lookup name).map fun number => (.alias number, p.facing rest)
    | tokens => do
      let (properties, rest) := properties tokens
      let tag ← properties.tag? handles
      -- with an anchor or a tag in front, the content may be missing
      let bare := properties.anchor.isNone && tag.isNone
      let (number, started) :=
        ({ p with tokens := rest, anchored := [] } : Progress).define properties.anchor
      let (node, done) ← content? handles n block unindented bare tag started
      return (node, done.record number node p.anchored)

/-- The content of a node with the given tag; `bare` tells that neither an anchor nor a tag is in
front of it, so there has to be one. -/
def content? (handles : Handles) :
    Nat → (block unindented bare : Bool) → Option Tag → Progress → Option (Node × Progress)
  | 0, _, _, _, _, _ => none
  | n + 1, block, unindented, bare, tag, p =>
    match p.tokens with
    | .blockEntry :: _ =>
      if unindented then unindentedItems? handles n tag [] p
      else if bare then none
      else some (scalar ⟨tag, .plain, ""⟩, p)
    | .scalar style text :: rest =>
      some (scalar ⟨if tag = some .nonSpecific then none else tag, style, text⟩, p.facing rest)
    | .flowSequenceStart :: rest => flowItems? handles n tag [] (p.facing rest)
    | .flowMappingStart :: rest => flowEntries? handles n tag [] (p.facing rest)
    | .blockSequenceStart :: rest =>
      if block then blockItems? handles n tag [] (p.facing rest)
      else if bare then none
      else some (scalar ⟨tag, .plain, ""⟩, p)
    | .blockMappingStart :: rest =>
      if block then blockEntries? handles n tag [] (p.facing rest)
      else if bare then none
      else some (scalar ⟨tag, .plain, ""⟩, p)
    | _ => if bare then none else some (scalar ⟨tag, .plain, ""⟩, p)

/-- The items of a block sequence up to its end, after those already read (the last first). -/
def blockItems? (handles : Handles) :
    Nat → Option Tag → List Node → Progress → Option (Node × Progress)
  | 0, _, _, _ => none
  | n + 1, tag, before, p =>
    match p.tokens with
    | .blockEnd :: rest => some (sequence tag before.reverse, p.facing rest)
    | .blockEntry :: rest =>
      if endsBlockItem rest then blockItems? handles n tag (blank :: before) (p.facing rest)
      else
        match read? handles n true false (p.facing rest) with
        | some (item, p) => blockItems? handles n tag (item :: before) p
        | none => none
    | _ => none

/-- The items of a block sequence that is not indented, up to what is not an item. -/
def unindentedItems? (handles : Handles) :
    Nat → Option Tag → List Node → Progress → Option (Node × Progress)
  | 0, _, _, _ => none
  | n + 1, tag, before, p =>
    match p.tokens with
    | .blockEntry :: rest =>
      if endsUnindentedItem rest then
        unindentedItems? handles n tag (blank :: before) (p.facing rest)
      else
        match read? handles n true false (p.facing rest) with
        | some (item, p) => unindentedItems? handles n tag (item :: before) p
        | none => none
    | _ => some (sequence tag before.reverse, p)

/-- The entries of a block mapping up to its end. A key may lack its value, but not the other way
round. -/
def blockEntries? (handles : Handles) :
    Nat → Option Tag → List (Node × Node) → Progress → Option (Node × Progress)
  | 0, _, _, _ => none
  | n + 1, tag, before, p =>
    match p.tokens with
    | .blockEnd :: rest => some (mapping tag before.reverse, p.facing rest)
    | .key :: rest =>
      match blockPart? handles n (p.facing rest) with
      | none => none
      | some (key, p) =>
        match p.tokens with
        | .value :: rest =>
          match blockPart? handles n (p.facing rest) with
          | some (value, p) => blockEntries? handles n tag ((key, value) :: before) p
          | none => none
        | _ => blockEntries? handles n tag ((key, blank) :: before) p
    | _ => none

/-- A key or a value of a block mapping, which may be missing. -/
def blockPart? (handles : Handles) : Nat → Progress → Option (Node × Progress)
  | 0, _ => none
  | n + 1, p => if endsBlockValue p.tokens then some (blank, p) else read? handles n true true p

/-- The items of a flow sequence up to its end. -/
def flowItems? (handles : Handles) :
    Nat → Option Tag → List Node → Progress → Option (Node × Progress)
  | 0, _, _, _ => none
  | n + 1, tag, before, p =>
    match p.tokens with
    | .flowSequenceEnd :: rest => some (sequence tag before.reverse, p.facing rest)
    | _ =>
      match flowItem? handles n p with
      | none => none
      | some (item, p) =>
        match p.tokens with
        | .flowEntry :: rest => flowItems? handles n tag (item :: before) (p.facing rest)
        | .flowSequenceEnd :: rest => some (sequence tag (item :: before).reverse, p.facing rest)
        | _ => none

/-- An item of a flow sequence, which is a mapping with one entry if it starts as a key. -/
def flowItem? (handles : Handles) : Nat → Progress → Option (Node × Progress)
  | 0, _ => none
  | n + 1, p =>
    match p.tokens with
    | .key :: rest =>
      match flowPairKey? handles n (p.facing rest) with
      | none => none
      | some (key, p) =>
        match p.tokens with
        | .value :: rest =>
          (flowPart? handles n .flowSequenceEnd (p.facing rest)).map fun (value, p) =>
            (mapping none [(key, value)], p)
        | _ => some (mapping none [(key, blank)], p)
    | _ => read? handles n false false p

/-- The key of a mapping with one entry in a flow sequence. A missing key takes the token with it
that shows that it is missing. -/
def flowPairKey? (handles : Handles) : Nat → Progress → Option (Node × Progress)
  | 0, _ => none
  | n + 1, p =>
    if endsFlowKey .flowSequenceEnd p.tokens then some (blank, p.facing (p.tokens.drop 1))
    else read? handles n false false p

/-- A value of a flow collection, which may be missing. -/
def flowPart? (handles : Handles) : Nat → (closing : Token) → Progress → Option (Node × Progress)
  | 0, _, _ => none
  | n + 1, closing, p =>
    if endsFlowValue closing p.tokens then some (blank, p) else read? handles n false false p

/-- The entries of a flow mapping up to its end. -/
def flowEntries? (handles : Handles) :
    Nat → Option Tag → List (Node × Node) → Progress → Option (Node × Progress)
  | 0, _, _, _ => none
  | n + 1, tag, before, p =>
    match p.tokens with
    | .flowMappingEnd :: rest => some (mapping tag before.reverse, p.facing rest)
    | _ =>
      match flowEntry? handles n p with
      | none => none
      | some (entry, p) =>
        match p.tokens with
        | .flowEntry :: rest => flowEntries? handles n tag (entry :: before) (p.facing rest)
        | .flowMappingEnd :: rest => some (mapping tag (entry :: before).reverse, p.facing rest)
        | _ => none

/-- An entry of a flow mapping. Without a colon it is a key alone. -/
def flowEntry? (handles : Handles) : Nat → Progress → Option ((Node × Node) × Progress)
  | 0, _ => none
  | n + 1, p =>
    match p.tokens with
    | .key :: rest =>
      match flowKey? handles n (p.facing rest) with
      | none => none
      | some (key, p) =>
        match p.tokens with
        | .value :: rest =>
          (flowPart? handles n .flowMappingEnd (p.facing rest)).map fun (value, p) =>
            ((key, value), p)
        | _ => some ((key, blank), p)
    | _ => (read? handles n false false p).map fun (key, p) => ((key, blank), p)

/-- The key of an entry that is marked as one, which may be missing. -/
def flowKey? (handles : Handles) : Nat → Progress → Option (Node × Progress)
  | 0, _ => none
  | n + 1, p =>
    if endsFlowKey .flowMappingEnd p.tokens then some (blank, p) else read? handles n false false p

end

end Node

namespace Document

/-- What directives were met. -/
structure Preamble where
  /-- Whether there was one for the version. -/
  versioned : Bool
  handles : Handles

/-- The directives at the start of the tokens. Each is given at most once for a version or a handle,
and the version is 1.1 or 1.2. -/
def directives? (before : Preamble) : List Token → Option (Preamble × List Token)
  | .directive (.version major minor) :: rest =>
    if before.versioned || major ≠ 1 || (minor ≠ 1 && minor ≠ 2) then none
    else directives? { before with versioned := true } rest
  | .directive (.handle handle base) :: rest =>
    if (before.handles.lookup handle).isSome then none
    else directives? { before with handles := (handle, base) :: before.handles } rest
  | rest => some (before, rest)

/-- Whether there is nothing in a document whose start was marked. -/
def isBlankAt : List Token → Bool
  | [] => true
  | .directive _ :: _ => true
  | .documentStart :: _ => true
  | .documentEnd :: _ => true
  | _ => false

/-- The node of a document whose start was marked. -/
def marked? (preamble : Preamble) (tokens : List Token) : Option (Node × Progress) :=
  let p : Progress := ⟨tokens, [], []⟩
  if isBlankAt tokens then some (.blank, p)
  else Node.read? (preamble.handles ++ usualHandles) (6 * tokens.length + 6) true false p

/-- **The document of some tokens.** Directives need a marked start. Nothing but marked ends may
follow the document. -/
def ofTokens? (tokens : List Token) : Option Document := do
  if tokens.isEmpty then return ⟨.blank, []⟩
  let (preamble, rest) ← directives? ⟨false, []⟩ tokens
  let (root, p) ←
    match rest with
    | .documentStart :: rest => marked? preamble rest
    | rest =>
      -- directives were met, but no start is marked
      if rest.length < tokens.length then none
      else Node.read? usualHandles (6 * rest.length + 6) true false ⟨rest, [], []⟩
  if p.tokens.all (· = .documentEnd) then return ⟨root, p.anchored⟩ else none

/-- **The document of a stream.** A stream without any has one with nothing in it. -/
def ofText? (text : String) : Option Document :=
  (tokens? text).bind ofTokens?

end Document

end Skirmish.Yaml
