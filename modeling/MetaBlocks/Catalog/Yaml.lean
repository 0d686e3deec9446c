import MetaBlocks.Catalog
import MetaBlocks.Load

/-!
Catalogs written in YAML: a list of templates. A template is its name, or a mapping with `name` and
`description`, or a list of the two in this order.

An item is first read as a whole, whatever it is, and then looked at; so a fault inside an item is
told by its place, and an item of the wrong shape is not.
-/

set_option autoImplicit false
set_option relaxedAutoImplicit false

namespace MetaBlocks.Catalog

open Yaml

/-- Anything that can be written in YAML, without places and aliases. -/
inductive Content where
  | value (v : CoreValue)
  | items (cs : List Content)
  | entries (es : List (Content × Content))
  deriving Repr, Inhabited

/-- How often aliases were followed so far, and the first fault. -/
abbrev Reading := StateT Nat (Except Fault)

def greatestDepth : Nat := 128

def greatestJumps (d : Yaml.Document) : Nat := 100 * d.root.weight

/-- The node to read: an alias counts as followed. -/
def target (d : Yaml.Document) (n : Node) : Reading Node := do
  match n with
  | .reference _ _ =>
    let jumps ← get
    set (jumps + 1)
    if greatestJumps d ≤ jumps then throw .tooManyAliases else return d.resolve n
  | n => return n

def faultAt {α : Type} (c : Cause) (path : Path) (n : Node) : Reading α :=
  throw (.cause c (some ⟨path, n.mark⟩))

def ofScalar (path : Path) (n : Node) (tag : Option (List Char)) (style : ScalarStyle)
    (s : List Char) : Reading Content :=
  match CoreValue.ofScalar tag style s with
  | .ok (.wideInteger k) => faultAt (.invalidType (.value (.wideInteger k)) "any value") path n
  | .ok v => return .value v
  | .error w => faultAt (.invalidValue (.value (.text s)) w) path n

def ofItems (read : Path → Node → Reading Content) (path : Path) :
    Nat → List Node → Reading (List Content)
  | _, [] => return []
  | i, n :: ns => do
    let c ← read (.index i :: path) n
    return c :: (← ofItems read path (i + 1) ns)

def ofEntries (read : Path → Node → Reading Content) (path : Path) :
    List (Node × Node) → Reading (List (Content × Content))
  | [] => return []
  | (k, v) :: es => do
    let key ← read path k
    let value ← read (Decode.stepTo k :: path) v
    return (key, value) :: (← ofEntries read path es)

/-- The content of a node below which collections may be nested `depth` deep. -/
def content (d : Yaml.Document) : Nat → Path → Node → Reading Content
  | depth, path, n => do
    let n ← target d n
    if (Decode.localTag? (Decode.tagOf n)).isSome then faultAt .taggedItem path n
    match depth, n with
    | _, .scalar _ tag style s => ofScalar path n tag style s
    | 0, n => throw (.tooDeep n.mark)
    | depth + 1, .sequence _ _ ns => return .items (← ofItems (content d depth) path 0 ns)
    | depth + 1, .mapping _ _ es => return .entries (← ofEntries (content d depth) path es)
    | _, .reference _ _ => return .value .null

def Content.text? : Content → Option (List Char)
  | value (.text s) => some s
  | _ => none

def Content.description? : Content → Option (Option (List Char))
  | value .null => some none
  | c => c.text?.map some

inductive Part where
  | name
  | description
  | unknown
  deriving DecidableEq, Repr, Inhabited

/-- The part a key stands for; parts can be named or numbered. -/
def Content.part? : Content → Option Part
  | value (.text s) =>
    some (if s = "name".toList then .name else if s = "description".toList then .description
      else .unknown)
  | value (.integer (.ofNat n)) =>
    some (if n = 0 then .name else if n = 1 then .description else .unknown)
  | _ => none

def partOf? (e : Content × Content) : Option (Part × Content) := e.1.part?.map fun p => (p, e.2)

/-- The values of the entries for a part, or nothing if some key stands for no part. -/
def valuesFor? (part : Part) (es : List (Content × Content)) : Option (List Content) :=
  (es.mapM partOf?).map fun ps => (ps.filter fun p => p.1 = part).map (·.2)

def ofMapping? (es : List (Content × Content)) : Option Template := do
  match ← valuesFor? .name es, ← valuesFor? .description es with
  | [n], [] => return ⟨← n.text?, none⟩
  | [n], [d] => return ⟨← n.text?, ← d.description?⟩
  | _, _ => none

def template? : Content → Option Template
  | .value v => (Content.value v).text?.map fun name => ⟨name, none⟩
  | .items [n] => do return ⟨← n.text?, none⟩
  | .items [n, d] => do return ⟨← n.text?, ← d.description?⟩
  | .items _ => none
  | .entries es => ofMapping? es

def ofNodes (d : Yaml.Document) : Nat → List Node → Reading Catalog
  | _, [] => return []
  | i, n :: ns => do
    match template? (← content d (greatestDepth - 1) [.index i] n) with
    | some t => return t :: (← ofNodes d (i + 1) ns)
    | none => throw (.cause (.noVariant "CatalogItem") none)

/-- A catalog from a node; a value that is not written has no items. -/
def decode : Decoder Catalog := fun d path n =>
  match n with
  | .sequence m _ ns => located path m ((ofNodes d 0 ns).run' 0)
  | .scalar _ _ .plain [] => .ok []
  | n => Decode.fail (n.mismatch "a sequence") path n

def ofYaml (text : List Char) : Except LoadError Catalog :=
  (Yaml.load? decode text).map fun c => c.getD []

def ofFile (f : FileBytes) : Except LoadError Catalog := do
  ofYaml (← f.text.mapError LoadError.unreadable)

end MetaBlocks.Catalog
