import StepTree.Markup.Tree

/-! # References replaced

A reference stands for the node that it names, which may hold references again, also to itself. A document
nests at most so deep, and follows at most so many references for its size; what goes beyond that cannot be
read as anything, but does no harm where nothing is expected. -/

namespace StepTree.Markup

/-- What is looked for in a part of a document. -/
inductive Shape where
  /-- Everything. -/
  | anything
  /-- The fields with some names; what stands under other names is looked at only if `others`. -/
  | fields (known : List (String × Shape)) (others : Bool)
  /-- The values of a table under whatever names. -/
  | tableOf (values : Shape)
  | listOf (items : Shape)

namespace Shape

/-- A table of fields of which everything is looked for. -/
def record (names : List String) : Shape := fields (names.map fun name => (name, anything)) false

/-- What is looked for in the items of a list. -/
def item : Shape → Shape
  | listOf items => items
  | _ => anything

/-- What is looked for under a key, if anything. -/
def value? (s : Shape) (key : Node) : Option Shape :=
  match s, key with
  | fields known others, .scalar k =>
    (known.lookup (String.ofList k.text)).orElse fun _ => if others then some anything else none
  | tableOf values, _ => some values
  | _, _ => some anything

end Shape

namespace Document

/-- The most levels of lists and tables. -/
def maxLevels : Nat := 128

/-- The number of references that a document may follow. -/
def allowance (d : Document) : Nat := 100 * d.anchors.size

/-- The node at the end of a reference, and the number of references left. -/
def follow (d : Document) (left : Nat) : Tree → Option (Tree × Nat)
  | .reference number =>
    match left with
    | 0 => none
    | left + 1 => (d.anchors.target? number).map fun tree => (tree, left)
  | tree => some (tree, left)

/-- Expands items one after the other. -/
def expandItems (expand : Nat → Tree → Node × Nat) : (left : Nat) → List Tree → List Node × Nat
  | left, [] => ([], left)
  | left, t :: rest =>
    let (node, left) := expand left t
    let (nodes, left) := expandItems expand left rest
    (node :: nodes, left)

/-- Expands the keys and values of a table. Values that are not looked for are not read. -/
def expandEntries (expand : Shape → Nat → Tree → Node × Nat) (shape : Shape) :
    (left : Nat) → List (Tree × Tree) → List (Node × Node) × Nat
  | left, [] => ([], left)
  | left, (key, value) :: rest =>
    let (key, left) := expand .anything left key
    let (value, left) := match shape.value? key with
      | some shape => expand shape left value
      | none => (.unreadable, left)
    let (entries, left) := expandEntries expand shape left rest
    ((key, value) :: entries, left)

/-- The tree with its references replaced, up to a number of levels; the number of references that may
still be followed comes with the result. -/
def expand (d : Document) : (levels : Nat) → Shape → (left : Nat) → Tree → Node × Nat
  | levels, shape, left, tree =>
    match d.follow left tree, levels with
    | none, _ => (.unreadable, 0)
    | some (.scalar s, left), _ => (.scalar s, left)
    | some (.list tagged items, left), levels + 1 =>
      let (nodes, left) := expandItems (d.expand levels shape.item) left items
      (.sequence tagged nodes, left)
    | some (.table tagged entries, left), levels + 1 =>
      let (nodes, left) := expandEntries (d.expand levels) shape left entries
      (.mapping tagged nodes, left)
    | some (_, left), _ => (.unreadable, left)

/-- The document as a node, in which something is looked for. -/
def node (d : Document) (shape : Shape) : Node := (d.expand maxLevels shape d.allowance d.tree).1

end Document

end StepTree.Markup
