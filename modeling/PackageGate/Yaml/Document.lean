import PackageGate.Yaml.Node
import PackageGate.Yaml.Token.Lexer

/-!
# Documents

- `Assembly`: a document in the making, out of the tokens that are left.
- `Assembly.readNode`: a node with its anchor and its tag.
- `Assembly.readStream`: a stream of at most one document; an empty stream has none.
- `Document.read?`: the document that a text writes.

Each function takes a number of nested turns that it may go on for. Of four turns
at least one takes a token, so four times the number of tokens suffices.
-/

namespace PackageGate.Yaml

/-- A document in the making. -/
structure Assembly where
  rest : List Token
  /-- What tag handles mean. -/
  handles : List (String × Tag)
  /-- The number of each anchor that has been set. -/
  numbers : List (String × Nat)
  /-- The number of every anchored node so far, the last one in front. -/
  owners : List Nat
  /-- The anchored nodes that have been read, by their rank among the anchored ones. -/
  placed : List (Nat × Node)

namespace Assembly

/-- Drops the next token. -/
def skip (p : Assembly) : Assembly := { p with rest := p.rest.tail }

/-- Whether the next token is one of `ts`, or there is none and `atEnd` holds. -/
def isAt (p : Assembly) (ts : List Token) : Bool := p.rest.head?.any ts.contains

/-- What a tag means. -/
def tagText? (p : Assembly) (handle : String) (suffix : Tag) : Option Tag :=
  if handle.isEmpty then some suffix
  else (p.handles.lookup handle).map (· ++ suffix)

/-- Reads the tag of a node. -/
def readTag? (p : Assembly) : Option (Option Tag × Assembly) :=
  match p.rest with
  | .tag handle suffix :: _ => (p.tagText? handle suffix).map fun t => (some t, p.skip)
  | _ => some (none, p)

/-- Reads the anchor of a node, and gives its rank among the anchored nodes. The number of
the anchor is the number of different anchors in front of it, so an anchor that is set again
shares its number with the next new one. -/
def readAnchor (p : Assembly) : Option Nat × Assembly :=
  match p.rest with
  | .anchor name :: _ =>
    let number := p.numbers.length
    (some p.owners.length,
      { p.skip with
        numbers := (name, number) :: p.numbers.filter (·.1 ≠ name)
        owners := number :: p.owners })
  | _ => (none, p)

/-- Reads anchor and tag of a node, in either order. -/
def readMarks (p : Assembly) : Option (Option Nat × Option Tag × Assembly) :=
  match p.readAnchor with
  | (some n, p) => do
    let (tag, p) ← p.readTag?
    return (some n, tag, p)
  | (none, p) => do
    let (tag, p) ← p.readTag?
    let (n, p) := if tag.isSome then p.readAnchor else (none, p)
    return (n, tag, p)

/-- Remembers an anchored node. -/
def define (rank : Option Nat) (node : Node) (p : Assembly) : Assembly :=
  match rank with
  | some rank => { p with placed := (rank, node) :: p.placed }
  | none => p

/-- The anchored nodes by their numbers. Where several share a number, the one whose anchor
stands last comes first. -/
def anchored (p : Assembly) : List (Nat × Node) :=
  (p.owners.zip (List.range p.owners.length).reverse).filterMap fun (number, rank) =>
    (p.placed.lookup rank).map (number, ·)

mutual

/-- Reads a node. Only where `inBlock` holds may it be a block collection, and only where
`isLoose` holds may the items of a sequence stand in the column of the key. -/
def readNode (fuel : Nat) (inBlock isLoose : Bool) (p : Assembly) : Option (Node × Assembly) :=
  match fuel with
  | 0 => none
  | fuel + 1 =>
    match p.rest with
    | .reference name :: _ => (p.numbers.lookup name).map fun n => (.reference n, p.skip)
    | _ => do
      let (n, tag, p) ← p.readMarks
      let (node, p) ← readContent fuel inBlock isLoose (n.isSome || tag.isSome) tag p
      return (node, p.define n node)

/-- Reads a node behind its marks. -/
def readContent (fuel : Nat) (inBlock isLoose isMarked : Bool) (tag : Option Tag)
    (p : Assembly) : Option (Node × Assembly) :=
  match fuel with
  | 0 => none
  | fuel + 1 =>
    match p.rest with
    | .scalar style text :: _ => some (.scalar tag style text, p.skip)
    | .flowSequence :: _ =>
      (readFlowItems fuel true p.skip).map fun (items, p) => (.sequence tag items, p)
    | .flowMapping :: _ =>
      (readFlowEntries fuel true p.skip).map fun (entries, p) => (.mapping tag entries, p)
    | t :: _ =>
      if t = .entry && isLoose then
        (readLooseItems fuel p).map fun (items, p) => (.sequence tag items, p)
      else if t = .blockSequence && inBlock then
        (readItems fuel p.skip).map fun (items, p) => (.sequence tag items, p)
      else if t = .blockMapping && inBlock then
        (readEntries fuel p.skip).map fun (entries, p) => (.mapping tag entries, p)
      else if isMarked then some (.absent tag, p)
      else none
    | [] => if isMarked then some (.absent tag, p) else none

/-- Reads a node, unless one of `ends` comes first. -/
def readOptional (fuel : Nat) (ends : List Token) (inBlock isLoose : Bool) (p : Assembly) :
    Option (Node × Assembly) :=
  match fuel with
  | 0 => none
  | fuel + 1 =>
    if p.isAt ends then some (.absent none, p) else readNode fuel inBlock isLoose p

/-- Reads the items of a block sequence up to its end. -/
def readItems (fuel : Nat) (p : Assembly) : Option (List Node × Assembly) :=
  match fuel with
  | 0 => none
  | fuel + 1 =>
    match p.rest with
    | .entry :: _ => do
      let (item, p) ← readOptional fuel [.entry, .blockEnd] true false p.skip
      let (items, p) ← readItems fuel p
      return (item :: items, p)
    | .blockEnd :: _ => some ([], p.skip)
    | _ => none

/-- Reads the items of a sequence in the column of its key. -/
def readLooseItems (fuel : Nat) (p : Assembly) : Option (List Node × Assembly) :=
  match fuel with
  | 0 => none
  | fuel + 1 =>
    match p.rest with
    | .entry :: _ => do
      let (item, p) ← readOptional fuel [.entry, .key, .value, .blockEnd] true false p.skip
      let (items, p) ← readLooseItems fuel p
      return (item :: items, p)
    | _ => some ([], p)

/-- Reads the entries of a block mapping up to its end. -/
def readEntries (fuel : Nat) (p : Assembly) : Option (List (Node × Node) × Assembly) :=
  match fuel with
  | 0 => none
  | fuel + 1 =>
    match p.rest with
    | .key :: _ => do
      let (key, p) ← readOptional fuel [.key, .value, .blockEnd] true true p.skip
      let (value, p) ← readValue fuel p
      let (entries, p) ← readEntries fuel p
      return ((key, value) :: entries, p)
    | .blockEnd :: _ => some ([], p.skip)
    | _ => none

/-- Reads the value of a block mapping's entry, if there is one. -/
def readValue (fuel : Nat) (p : Assembly) : Option (Node × Assembly) :=
  match fuel with
  | 0 => none
  | fuel + 1 =>
    match p.rest with
    | .value :: _ => readOptional fuel [.key, .value, .blockEnd] true true p.skip
    | _ => some (.absent none, p)

/-- Reads the items of a flow sequence up to its end. An item may be a single entry of a
mapping. -/
def readFlowItems (fuel : Nat) (isFirst : Bool) (p : Assembly) : Option (List Node × Assembly) :=
  match fuel with
  | 0 => none
  | fuel + 1 =>
    if p.isAt [.flowSequenceEnd] then some ([], p.skip)
    else if !isFirst && !p.isAt [.comma] then none
    else
      let p := if isFirst then p else p.skip
      match p.rest with
      | .flowSequenceEnd :: _ => some ([], p.skip)
      | .key :: _ => do
        let (entry, p) ← readFlowPair fuel p.skip
        let (items, p) ← readFlowItems fuel false p
        return (.mapping none [entry] :: items, p)
      | _ => do
        let (item, p) ← readNode fuel false false p
        let (items, p) ← readFlowItems fuel false p
        return (item :: items, p)

/-- Reads the entry of a mapping inside a flow sequence, behind the mark of its key. A key
that is left out takes the token behind it with it. -/
def readFlowPair (fuel : Nat) (p : Assembly) : Option ((Node × Node) × Assembly) :=
  match fuel with
  | 0 => none
  | fuel + 1 => do
    let (key, p) ←
      if p.isAt [.value, .comma, .flowSequenceEnd] then some (Node.absent none, p.skip)
      else readNode fuel false false p
    let (value, p) ←
      match p.rest with
      | .value :: _ => readOptional fuel [.comma, .flowSequenceEnd] false false p.skip
      | _ => some (Node.absent none, p)
    return ((key, value), p)

/-- Reads the entries of a flow mapping up to its end. -/
def readFlowEntries (fuel : Nat) (isFirst : Bool) (p : Assembly) :
    Option (List (Node × Node) × Assembly) :=
  match fuel with
  | 0 => none
  | fuel + 1 =>
    if p.isAt [.flowMappingEnd] then some ([], p.skip)
    else if !isFirst && !p.isAt [.comma] then none
    else
      let p := if isFirst then p else p.skip
      match p.rest with
      | .flowMappingEnd :: _ => some ([], p.skip)
      | .key :: _ => do
        let (key, p) ←
          readOptional fuel [.value, .comma, .flowMappingEnd] false false p.skip
        let (value, p) ←
          match p.rest with
          | .value :: _ => readOptional fuel [.comma, .flowMappingEnd] false false p.skip
          | _ => some (Node.absent none, p)
        let (entries, p) ← readFlowEntries fuel false p
        return ((key, value) :: entries, p)
      | _ => do
        let (key, p) ← readNode fuel false false p
        let (entries, p) ← readFlowEntries fuel false p
        return ((key, .absent none) :: entries, p)

end

/-- Reads the directives in front of a document. Version 1.1 or 1.2 may be named, once, and
every tag handle defined once. -/
def readDirectives : List Token → (hasVersion : Bool) → (handles : List (String × Tag)) →
    Option (List (String × Tag) × List Token)
  | .version major minor :: r, hasVersion, handles =>
    if hasVersion || major ≠ 1 || (minor ≠ 1 && minor ≠ 2) then none
    else readDirectives r true handles
  | .tagHandle handle leading :: r, hasVersion, handles =>
    if handles.any (·.1 = handle) then none
    else readDirectives r hasVersion ((handle, leading) :: handles)
  | r, _, handles => some (handles, r)

/-- The tag handles that need no directive. -/
def standardHandles : List (String × Tag) :=
  [("!", .ofText "!"), ("!!", coreTag "")]

/-- Whether a token begins a document with its directives. -/
def isOpening : Token → Bool
  | .version _ _ | .tagHandle _ _ | .documentStart => true
  | _ => false

/-- Whether nothing follows but ends of documents. -/
def isOver (p : Assembly) : Bool := p.rest.all (· = .documentEnd)

/-- Reads the content of a document that is opened by a mark. -/
def readMarked (fuel : Nat) (p : Assembly) : Option (Node × Assembly) :=
  match p.rest with
  | [] => some (.absent none, p)
  | t :: _ =>
    if isOpening t || t = .documentEnd then some (.absent none, p)
    else readNode fuel true false p

/-- Reads a stream of one document, or of none. -/
def readStream (tokens : List Token) : Option (Option Document) := do
  let fuel := 4 * tokens.length + 4
  let start : Assembly := ⟨tokens, standardHandles, [], [], []⟩
  if tokens = [] then return none
  let (root, p) ←
    if tokens.head?.any isOpening then do
      let (handles, rest) ← readDirectives tokens false []
      if rest.head? ≠ some .documentStart then none
      readMarked fuel { start with rest := rest.tail, handles := handles ++ standardHandles }
    else readNode fuel true false start
  if p.isOver then return some ⟨root, p.anchored⟩ else none

end Assembly

/-- The document that a text writes; nothing if the text is no stream of at most one. -/
def Document.read? (text : String) : Option (Option Document) := do
  Assembly.readStream (← tokens? text.toList)

end PackageGate.Yaml
