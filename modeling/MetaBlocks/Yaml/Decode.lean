import MetaBlocks.Yaml.Fault

/-!
Values of a wanted type, read from nodes. A reader gets the document, for its aliases, and the path
to the node, for its messages.
-/

set_option autoImplicit false
set_option relaxedAutoImplicit false

namespace MetaBlocks.Yaml

abbrev Decoder (α : Type) := Document → Path → Node → Except Fault α

def Node.mismatch (wanted : String) : Node → Cause
  | .scalar _ tag style text =>
    match CoreValue.ofScalar tag style text with
    | .ok v => .invalidType (.value v) wanted
    | .error w => .invalidValue (.value (.text text)) w
  | .sequence _ _ _ => .invalidType .sequence wanted
  | .mapping _ _ _ => .invalidType .mapping wanted
  | .reference _ _ => .invalidType .mapping wanted

namespace Decode

def fail {α : Type} (c : Cause) (path : Path) (n : Node) : Except Fault α :=
  .error (.cause c (some ⟨path, n.mark⟩))

/-- The scalar may be read as a value of a type: it is plain, or literal and tagged with it. -/
def mayBe (type : String) (tag : Option (List Char)) (style : ScalarStyle) : Bool :=
  style = .plain || (style = .literal && tag = some (CoreValue.coreTag type))

def text : Decoder (List Char) := fun d path n =>
  match d.resolve n with
  | .scalar _ _ _ s => .ok s
  | n => fail (n.mismatch "a string") path n

def boolean : Decoder Bool := fun d path n =>
  let n := d.resolve n
  let fault := fail (n.mismatch "a boolean") path n
  match n with
  | .scalar _ tag style s =>
    if mayBe "bool" tag style then
      match CoreValue.boolean? s with
      | some b => .ok b
      | none => fault
    else fault
  | _ => fault

def word : Decoder UInt32 := fun d path n =>
  let n := d.resolve n
  let fault := fail (n.mismatch "u32") path n
  match n with
  | .scalar _ tag style s =>
    if mayBe "int" tag style then
      match CoreValue.unsigned? (UInt64.size - 1) s with
      | some k =>
        if k < UInt32.size then .ok (UInt32.ofNat k)
        else fail (.invalidValue (.value (.integer k)) "u32") path n
      | none => fault
    else fault
  | _ => fault

def localTag? (tag : Option (List Char)) : Option (List Char) :=
  match tag with
  | some ['!'] => some ['!']
  | some ('!' :: name) => some name
  | _ => none

def tagOf : Node → Option (List Char)
  | .scalar _ tag _ _ => tag
  | .sequence _ tag _ => tag
  | .mapping _ tag _ => tag
  | .reference _ _ => none

/-- A node that says nothing, as is wanted behind the tag that names a choice. -/
def isNothing : Node → Bool
  | .scalar _ _ style s => s.isEmpty || (style = .plain && CoreValue.isNull s)
  | _ => false

/-- A choice among named values: the name as a scalar, or as a tag with nothing behind it. A name
that is unknown as a tag has no place of its own. -/
def choice {α : Type} (choices : List (String × α)) : Decoder α := fun d path n =>
  let target := d.resolve n
  let unknown := fun name => Cause.unknownVariant name (choices.map (·.1))
  let find := fun name : List Char => (choices.find? fun c => c.1.toList = name).map (·.2)
  match localTag? (tagOf target), target with
  | some name, _ =>
    match find name with
    | some a =>
      if isNothing target then .ok a else fail (target.mismatch "unit") path target
    | none =>
      match n with
      | .reference m _ => .error (.cause (unknown name) (some ⟨path, m⟩))
      | _ => .error (.cause (unknown name) none)
  | none, .scalar _ _ _ name =>
    match find name with
    | some a => .ok a
    | none => fail (unknown name) path target
  | none, .sequence _ _ _ =>
    fail (.invalidType .sequence "a YAML tag starting with '!'") path target
  | none, _ => fail (.invalidType .mapping "a YAML tag starting with '!'") path target

/-- A field of a record: its name, and how its value changes the record. -/
structure RecordField (σ : Type) where
  name : String
  read : Decoder (σ → σ)

def RecordField.of {σ α : Type} (name : String) (read : Decoder α) (put : α → σ → σ) :
    RecordField σ :=
  ⟨name, fun d path n => (read d path n).map put⟩

def stepTo : Node → PathStep
  | .scalar _ _ _ name => .key name
  | _ => .unnamed

def fieldOf {σ : Type} (fields : List (RecordField σ)) (d : Document) (path : Path) (key : Node) :
    Except Fault (RecordField σ) :=
  match d.resolve key with
  | .scalar m _ _ name =>
    match fields.find? fun f => f.name.toList = name with
    | some f => .ok f
    | none => .error (.cause (.unknownField name (fields.map RecordField.name)) (some ⟨path, m⟩))
  | n => fail (n.mismatch "field identifier") path n

/-- A record with the given entries put in, in order; `seen` are the fields already put in. -/
def entries {σ : Type} (fields : List (RecordField σ)) (d : Document) (path : Path) :
    List String → σ → List (Node × Node) → Except Fault σ
  | _, s, [] => .ok s
  | seen, s, (key, value) :: rest => do
    let f ← fieldOf fields d path key
    if seen.contains f.name then throw (.cause (.duplicateField f.name) none)
    let put ← f.read d (stepTo key :: path) value
    entries fields d path (f.name :: seen) (put s) rest

/-- A record, which starts as the default and takes the fields of a mapping; a value that is not
written has no fields. -/
def record {σ : Type} (wanted : String) (fields : List (RecordField σ)) (default : σ) : Decoder σ :=
  fun d path n =>
    match d.resolve n with
    | .mapping m _ es => located path m (entries fields d path [] default es)
    | .scalar _ _ .plain [] => .ok default
    | n => fail (n.mismatch wanted) path n

end Decode

end MetaBlocks.Yaml
