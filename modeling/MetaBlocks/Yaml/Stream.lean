import MetaBlocks.Yaml.Node
import MetaBlocks.Yaml.Token

/-!
The documents of a YAML text. Every reader below takes what it recognises from the tokens at hand.
Recursion is bounded by fuel, of which the number of tokens gives enough: no chain of nested
readers passes a token more than three times.
-/

set_option autoImplicit false
set_option relaxedAutoImplicit false

namespace MetaBlocks.Yaml

structure ReadState where
  tokens : List Token
  /-- What the tag handles of the document stand for. -/
  handles : List (List Char × List Char)
  /-- Anchor names with their numbers, the last given first. -/
  names : List (List Char × Nat)
  /-- Number of anchors met. -/
  anchors : Nat
  anchored : List Anchored
  deriving Inhabited

abbrev Read := StateT ReadState (Except SyntaxError)

namespace Read

/-- The handles that every document knows. -/
def commonHandles : List (List Char × List Char) :=
  [(['!'], ['!']), (['!', '!'], "tag:yaml.org,2002:".toList)]

def peek : Read Token := do
  match (← get).tokens with
  | t :: _ => return t
  | [] => throw ⟨.nodeContent, ⟨0, 0, 0⟩⟩

/-- Passes the token at hand; the last one stays. -/
def pass : Read Unit :=
  modify fun s => match s.tokens with
    | _ :: ts@(_ :: _) => { s with tokens := ts }
    | _ => s

/-- Gives an anchor its number; the second number is its place among the anchors. -/
def openAnchor (name : List Char) : Read (Nat × Nat) := do
  let s ← get
  let number := s.names.length
  let names := (name, number) :: s.names.filter fun n => n.1 ≠ name
  set { s with names := names, anchors := s.anchors + 1 }
  return (number, s.anchors)

def closeAnchor (anchor : Option (Nat × Nat)) (n : Node) : Read Node := do
  match anchor with
  | some (number, order) =>
    modify fun s => { s with anchored := ⟨number, order, n⟩ :: s.anchored }
  | none => pure ()
  return n

def referenceTo (m : Mark) (name : List Char) : Read Node := do
  match (← get).names.lookup name with
  | some number => return .reference m number
  | none => throw ⟨.unknownAnchor, m⟩

def fullTag (m : Mark) (t : WrittenTag) : Read (List Char) := do
  if t.handle.isEmpty then return t.suffix
  match (← get).handles.lookup t.handle with
  | some start => return start ++ t.suffix
  | none => throw ⟨.unknownHandle, m⟩

/-- An anchor and a tag before a node, in either order. -/
def properties : Read (Option (Nat × Nat) × Option (List Char)) := do
  let t ← peek
  match t.kind with
  | .anchor name =>
    pass
    let u ← peek
    match u.kind with
    | .tag w =>
      pass
      let tag ← fullTag u.start w
      return (some (← openAnchor name), some tag)
    | _ => return (some (← openAnchor name), none)
  | .tag w =>
    pass
    let u ← peek
    match u.kind with
    | .anchor name =>
      pass
      let tag ← fullTag t.start w
      return (some (← openAnchor name), some tag)
    | _ => return (none, some (← fullTag t.start w))
  | _ => return (none, none)

mutual

/-- A node. Block collections may start where `inBlock` is set, and where `indentless` is set a
sequence may stand at the indentation of the mapping around it. -/
def node : Nat → (inBlock indentless : Bool) → Read Node
  | 0, _, _ => do throw ⟨.nodeContent, (← peek).start⟩
  | fuel + 1, inBlock, indentless => do
    let first ← peek
    if let .reference name := first.kind then
      pass
      return ← referenceTo first.start name
    let (anchor, tag) ← properties
    let t ← peek
    let m := first.start
    match t.kind, inBlock, indentless with
    | .blockEntry, _, true => closeAnchor anchor (.sequence m tag (← indentlessItems fuel))
    | .scalar style text, _, _ =>
      pass
      closeAnchor anchor (.scalar m (tag.filter (· ≠ ['!'])) style text)
    | .flowSequenceStart, _, _ =>
      pass
      closeAnchor anchor (.sequence m tag (← flowItems fuel true))
    | .flowMappingStart, _, _ =>
      pass
      closeAnchor anchor (.mapping m tag (← flowEntries fuel true))
    | .blockSequenceStart, true, _ =>
      pass
      closeAnchor anchor (.sequence m tag (← blockItems fuel))
    | .blockMappingStart, true, _ =>
      pass
      closeAnchor anchor (.mapping m tag (← blockEntries fuel))
    | _, _, _ =>
      if anchor.isSome || tag.isSome then closeAnchor anchor (.scalar m tag .plain [])
      else throw ⟨.nodeContent, t.start⟩

def blockItems : Nat → Read (List Node)
  | 0 => do throw ⟨.blockEntry, (← peek).start⟩
  | fuel + 1 => do
    let t ← peek
    match t.kind with
    | .blockEntry =>
      pass
      let item ← match (← peek).kind with
        | .blockEntry | .blockEnd => pure (.empty t.stop)
        | _ => node fuel true false
      return item :: (← blockItems fuel)
    | .blockEnd => pass; return []
    | _ => throw ⟨.blockEntry, t.start⟩

/-- The items of a sequence at the indentation of the mapping around it. -/
def indentlessItems : Nat → Read (List Node)
  | 0 => return []
  | fuel + 1 => do
    let t ← peek
    match t.kind with
    | .blockEntry =>
      pass
      let item ← match (← peek).kind with
        | .blockEntry | .key | .value | .blockEnd => pure (.empty t.stop)
        | _ => node fuel true false
      return item :: (← indentlessItems fuel)
    | _ => return []

def blockEntries : Nat → Read (List (Node × Node))
  | 0 => do throw ⟨.blockKey, (← peek).start⟩
  | fuel + 1 => do
    let t ← peek
    match t.kind with
    | .key =>
      pass
      let key ← match (← peek).kind with
        | .key | .value | .blockEnd => pure (.empty t.stop)
        | _ => node fuel true true
      let value ← blockValue fuel
      return (key, value) :: (← blockEntries fuel)
    | .blockEnd => pass; return []
    | _ => throw ⟨.blockKey, t.start⟩

def blockValue : Nat → Read Node
  | 0 => do return .empty (← peek).start
  | fuel + 1 => do
    let t ← peek
    match t.kind with
    | .value =>
      pass
      match (← peek).kind with
      | .key | .value | .blockEnd => return .empty t.stop
      | _ => node fuel true true
    | _ => return .empty t.start

/-- The items of a flow sequence; an item may be a single pair of a key and a value. -/
def flowItems : Nat → (isFirst : Bool) → Read (List Node)
  | 0, _ => do throw ⟨.flowSequenceEnd, (← peek).start⟩
  | fuel + 1, isFirst => do
    let t ← peek
    match t.kind, isFirst with
    | .flowSequenceEnd, _ => pass; return []
    | .flowEntry, false =>
      pass
      match (← peek).kind with
      | .flowSequenceEnd => pass; return []
      | _ => return (← flowItem fuel) :: (← flowItems fuel false)
    | _, true => return (← flowItem fuel) :: (← flowItems fuel false)
    | _, false => throw ⟨.flowSequenceEnd, t.start⟩

def flowItem : Nat → Read Node
  | 0 => do throw ⟨.nodeContent, (← peek).start⟩
  | fuel + 1 => do
    let t ← peek
    match t.kind with
    | .key =>
      pass
      let u ← peek
      let key ← match u.kind with
        | .value | .flowEntry | .flowSequenceEnd => do pass; pure (.empty u.stop)
        | _ => node fuel false false
      let v ← peek
      let value ← match v.kind with
        | .value => do
          pass
          let w ← peek
          match w.kind with
          | .flowEntry | .flowSequenceEnd => pure (.empty w.start)
          | _ => node fuel false false
        | _ => pure (.empty v.start)
      return .mapping t.start none [(key, value)]
    | _ => node fuel false false

/-- The entries of a flow mapping; a key may stand without a value. -/
def flowEntries : Nat → (isFirst : Bool) → Read (List (Node × Node))
  | 0, _ => do throw ⟨.flowMappingEnd, (← peek).start⟩
  | fuel + 1, isFirst => do
    let t ← peek
    match t.kind, isFirst with
    | .flowMappingEnd, _ => pass; return []
    | .flowEntry, false =>
      pass
      match (← peek).kind with
      | .flowMappingEnd => pass; return []
      | _ => return (← flowPair fuel) :: (← flowEntries fuel false)
    | _, true => return (← flowPair fuel) :: (← flowEntries fuel false)
    | _, false => throw ⟨.flowMappingEnd, t.start⟩

def flowPair : Nat → Read (Node × Node)
  | 0 => do throw ⟨.nodeContent, (← peek).start⟩
  | fuel + 1 => do
    let t ← peek
    match t.kind with
    | .key =>
      pass
      let u ← peek
      let key ← match u.kind with
        | .value | .flowEntry | .flowMappingEnd => pure (.empty u.start)
        | _ => node fuel false false
      let v ← peek
      match v.kind with
      | .value =>
        pass
        let w ← peek
        match w.kind with
        | .flowEntry | .flowMappingEnd => return (key, .empty w.start)
        | _ => return (key, ← node fuel false false)
      | _ => return (key, .empty v.start)
    | _ =>
      let key ← node fuel false false
      return (key, .empty (← peek).start)

end

def directives : Nat → (version : Bool) → Read Unit
  | 0, _ => return ()
  | fuel + 1, version => do
    let t ← peek
    match t.kind with
    | .directive (.version major minor) =>
      if version then throw ⟨.repeatedVersion, t.start⟩
      if major ≠ 1 || (minor ≠ 1 && minor ≠ 2) then throw ⟨.foreignVersion, t.start⟩
      pass
      directives fuel true
    | .directive (.tag handle start) =>
      if ((← get).handles.lookup handle).isSome then throw ⟨.repeatedTag, t.start⟩
      modify fun s => { s with handles := s.handles ++ [(handle, start)] }
      pass
      directives fuel version
    | _ => return ()

/-- The root of a document whose start marker has been passed. -/
def markedRoot (fuel : Nat) : Read Node := do
  let t ← peek
  match t.kind with
  | .directive _ | .documentStart | .documentEnd | .streamEnd => return .empty t.start
  | _ => node fuel true false

/-- A document; the first may do without a start marker. -/
def document (fuel : Nat) (isFirst : Bool) : Read Document := do
  modify fun s => { s with handles := [], names := [], anchors := 0, anchored := [] }
  let t ← peek
  let root ← match t.kind, isFirst with
    | .directive _, _ | .documentStart, _ | _, false => do
      directives fuel false
      let u ← peek
      if u.kind ≠ .documentStart then throw ⟨.documentStart, u.start⟩
      pass
      modify fun s => { s with handles := s.handles ++ commonHandles }
      markedRoot fuel
    | _, true => do
      modify fun s => { s with handles := commonHandles }
      node fuel true false
  if (← peek).kind = .documentEnd then pass
  return ⟨root, (← get).anchored⟩

def passEnds : Nat → Read Unit
  | 0 => return ()
  | fuel + 1 => do
    if (← peek).kind = .documentEnd then
      pass
      passEnds fuel

def documents (size : Nat) : Nat → (isFirst : Bool) → Read (List Document)
  | 0, _ => return []
  | fuel + 1, isFirst => do
    if !isFirst then passEnds size
    if (← peek).kind = .streamEnd then return []
    let d ← document (4 * size + 4) isFirst
    return d :: (← documents size fuel false)

end Read

def Document.ofText (text : List Char) : Except SyntaxError (List Document) := do
  let tokens ← Token.ofText text
  let (ds, _) ← (Read.documents tokens.length (tokens.length + 1) true).run
    ⟨tokens, [], [], 0, []⟩
  return ds

end MetaBlocks.Yaml
