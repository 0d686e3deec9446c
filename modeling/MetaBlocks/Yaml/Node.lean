import MetaBlocks.Yaml.Scalar

/-!
YAML documents as trees.

An alias holds the number of an anchor. Anchors are numbered in document order by how many
distinct names had been given before them, and a number stands for the last node that bears it;
so a node may lie below an alias for itself, and trees stay finite.
-/

set_option autoImplicit false
set_option relaxedAutoImplicit false

namespace MetaBlocks.Yaml

inductive Node where
  | scalar (mark : Mark) (tag : Option (List Char)) (style : ScalarStyle) (text : List Char)
  | sequence (mark : Mark) (tag : Option (List Char)) (items : List Node)
  | mapping (mark : Mark) (tag : Option (List Char)) (entries : List (Node × Node))
  | reference (mark : Mark) (number : Nat)
  deriving Repr, Inhabited

namespace Node

def mark : Node → Mark
  | scalar m _ _ _ => m
  | sequence m _ _ => m
  | mapping m _ _ => m
  | reference m _ => m

/-- A value that is not written. -/
def empty (m : Mark) : Node := scalar m none .plain []

mutual

/-- The number of marks of structure in a node: one for a scalar or an alias, two for a collection
besides its parts. -/
def weight : Node → Nat
  | scalar _ _ _ _ => 1
  | reference _ _ => 1
  | sequence _ _ items => itemsWeight items + 2
  | mapping _ _ entries => entriesWeight entries + 2

def itemsWeight : List Node → Nat
  | [] => 0
  | n :: ns => n.weight + itemsWeight ns

def entriesWeight : List (Node × Node) → Nat
  | [] => 0
  | (k, v) :: es => k.weight + v.weight + entriesWeight es

end

end Node

/-- A node that an anchor names. `order` counts the anchors that start before it. -/
structure Anchored where
  number : Nat
  order : Nat
  node : Node
  deriving Repr, Inhabited

structure Document where
  root : Node
  anchored : List Anchored
  deriving Repr, Inhabited

namespace Document

def later (a b : Anchored) : Anchored := if a.order < b.order then b else a

def lookup (d : Document) (number : Nat) : Option Node :=
  match d.anchored.filter fun a => a.number == number with
  | [] => none
  | a :: as => some (as.foldl later a).node

def resolve (d : Document) (n : Node) : Node :=
  match n with
  | .reference _ number => (d.lookup number).getD n
  | _ => n

end Document

end MetaBlocks.Yaml
