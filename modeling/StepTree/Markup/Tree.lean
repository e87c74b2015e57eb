import StepTree.Document.Node
import StepTree.Markup.Token
import StepTree.Text.Bytes

/-! # Trees of a markup text

The tokens of a text make up a tree of scalars, lists and tables, in which a node may refer to one with an
anchor. A text holds at most one document; one without any stands for an empty scalar. -/

namespace StepTree.Markup

inductive Tree where
  | scalar (s : Scalar)
  | list (tagged : Bool) (items : List Tree)
  | table (tagged : Bool) (entries : List (Tree × Tree))
  /-- A reference to the anchored node with a number. -/
  | reference (number : Nat)

namespace Tree

/-- A scalar that is not written at all. -/
def empty : Tree := .scalar { text := [], style := .plain, tag := .absent }

end Tree

/-- The anchored nodes of a document. An anchor has as its number the count of the names that were anchored
before; a name that is anchored again can so take over the number of another one. -/
structure Anchors where
  /-- The numbers of the names. -/
  numbers : List (String × Nat) := []
  /-- For each number the last node that began with it, counted among the anchored nodes. -/
  owners : List Nat := []
  /-- The anchored nodes that were read, by their count. -/
  nodes : List (Nat × Tree) := []
  /-- The count of the anchored nodes that began. -/
  begun : Nat := 0
  /-- The size of the document: one for a scalar or a reference, two for a list or table. -/
  size : Nat := 0

namespace Anchors

/-- An anchored node begins; its count comes with the result. -/
def begin (a : Anchors) (name : List Char) : Nat × Anchors :=
  let number := a.numbers.length
  (a.begun,
    { a with
      numbers := Ordered.insert (String.ofList name) number a.numbers
      owners := a.owners.take number ++ a.begun :: a.owners.drop (number + 1)
      begun := a.begun + 1 })

def grow (a : Anchors) (size : Nat) : Anchors := { a with size := a.size + size }

/-- The node that a reference stands for. -/
def target? (a : Anchors) (number : Nat) : Option Tree := do a.nodes.lookup (← a.owners[number]?)

end Anchors

/-! ### Tags -/

/-- The beginnings of tags by handle. -/
abbrev Handles := List (List Char × List Char)

/-- The beginning of the tags that the format itself defines. -/
def standardTag : List Char := "tag:yaml.org,2002:".toList

def standardHandles : Handles := [(['!'], ['!']), (['!', '!'], standardTag)]

/-- The tag in full. -/
def Tag.resolve? (handles : Handles) (t : Tag) : Option (List Char) :=
  let suffix := untilZero t.suffix
  if t.handle.isEmpty then some suffix
  else (handles.lookup t.handle).map fun start => untilZero start ++ suffix

/-- A tag of the document's own, which begins with an exclamation mark. -/
def isLocal (tag : List Char) : Bool := tag.head? = some '!'

/-- The bytes of a tag are text. -/
def isText (tag : List Char) : Bool :=
  let bytes := tag.map fun b => UInt8.ofNat b.toNat
  (Text.ofBytes bytes).flatMap String.utf8EncodeChar == bytes

/-- What a tag says about a scalar. -/
def scalarTag (tag : Option (List Char)) : ScalarTag :=
  match tag with
  | none => .absent
  | some tag =>
    if isLocal tag then if isText tag then .localTag else .garbled
    else match Text.after? standardTag tag with
      | some ['n', 'u', 'l', 'l'] => .null
      | some ['b', 'o', 'o', 'l'] => .bool
      | some ['i', 'n', 't'] => .int
      | some ['f', 'l', 'o', 'a', 't'] => .float
      | _ => .other

def ScalarForm.style : ScalarForm → ScalarStyle
  | .plain => .plain
  | .literal => .literal
  | _ => .quoted

/-! ### Nodes -/

/-- The anchor and the tag in front of a node, in either order, and the tokens after them. -/
def properties : List Token → Option (List Char) × Option Tag × List Token
  | .anchor name :: .tag t :: rest => (some name, some t, rest)
  | .anchor name :: rest => (some name, none, rest)
  | .tag t :: .anchor name :: rest => (some name, some t, rest)
  | .tag t :: rest => (none, some t, rest)
  | rest => (none, none, rest)

/-- The next token is one of some. -/
def nextIn (tokens : List Token) (ts : List Token) : Bool :=
  match tokens with
  | t :: _ => ts.contains t
  | [] => false

/-- What was read, and what remains. -/
abbrev Read (α : Type) := α × Anchors × List Token

mutual

/-- Reads a node. A list or table told by its indentation is a node only if `block`, a list without an
indentation of its own only if `loose`. -/
def node? (handles : Handles) : (fuel : Nat) → (block loose : Bool) → Anchors → List Token → Option (Read Tree)
  | 0, _, _, _, _ => none
  | fuel + 1, block, loose, a, tokens =>
    match tokens with
    | .reference name :: rest => do
      let number ← Ordered.get? (String.ofList name) a.numbers
      some (.reference number, a.grow 1, rest)
    | _ => do
      let (name, t, rest) := properties tokens
      let tag ← match t with
        | none => some none
        | some t => (t.resolve? handles).map some
      let (count, a) := match name with
        | some name => a.begin name
        | none => (0, a)
      let (tree, a, rest) ← content? handles fuel block loose (name.isSome || t.isSome) tag a rest
      some (tree, if name.isSome then { a with nodes := (count, tree) :: a.nodes } else a, rest)

/-- Reads what comes after the anchor and the tag of a node; it may be missing if there are any. -/
def content? (handles : Handles) : (fuel : Nat) → (block loose marked : Bool) → (tag : Option (List Char)) →
    Anchors → List Token → Option (Read Tree)
  | 0, _, _, _, _, _, _ => none
  | fuel + 1, block, loose, marked, tag, a, tokens =>
    let tagged := (tag.map fun tag => isLocal tag && isText tag).getD false
    match tokens with
    | .scalar text form :: rest =>
      some (.scalar { text, style := form.style, tag := scalarTag tag }, a.grow 1, rest)
    | .listStart :: rest =>
      (flowItems? handles fuel true (a.grow 2) rest).map fun (items, a, rest) => (.list tagged items, a, rest)
    | .tableStart :: rest =>
      (flowEntries? handles fuel true (a.grow 2) rest).map fun (entries, a, rest) => (.table tagged entries, a, rest)
    | t :: rest =>
      if loose && t = .item then
        (looseItems? handles fuel (a.grow 2) tokens).map fun (items, a, rest) => (.list tagged items, a, rest)
      else if block && t = .blockListStart then
        (blockItems? handles fuel (a.grow 2) rest).map fun (items, a, rest) => (.list tagged items, a, rest)
      else if block && t = .blockTableStart then
        (blockEntries? handles fuel (a.grow 2) rest).map fun (entries, a, rest) => (.table tagged entries, a, rest)
      else if marked then some (.scalar { text := [], style := .plain, tag := scalarTag tag }, a.grow 1, tokens)
      else none
    | [] =>
      if marked then some (.scalar { text := [], style := .plain, tag := scalarTag tag }, a.grow 1, tokens) else none

/-- Reads a node, unless one of some tokens is next: then it is empty. -/
def nodeUnless? (handles : Handles) :
    (fuel : Nat) → (ends : List Token) → (block loose : Bool) → Anchors → List Token → Option (Read Tree)
  | 0, _, _, _, _, _ => none
  | fuel + 1, ends, block, loose, a, tokens =>
    if nextIn tokens ends then some (.empty, a.grow 1, tokens) else node? handles fuel block loose a tokens

/-- Reads the items of a list up to the end of its indentation. -/
def blockItems? (handles : Handles) : (fuel : Nat) → Anchors → List Token → Option (Read (List Tree))
  | 0, _, _ => none
  | fuel + 1, a, .item :: rest => do
    let (tree, a, rest) ← nodeUnless? handles fuel [.item, .blockEnd] true false a rest
    let (trees, a, rest) ← blockItems? handles fuel a rest
    some (tree :: trees, a, rest)
  | _ + 1, a, .blockEnd :: rest => some ([], a, rest)
  | _ + 1, _, _ => none

/-- Reads the items of a list without an indentation of its own. -/
def looseItems? (handles : Handles) : (fuel : Nat) → Anchors → List Token → Option (Read (List Tree))
  | 0, _, _ => none
  | fuel + 1, a, .item :: rest => do
    let (tree, a, rest) ← nodeUnless? handles fuel [.item, .key, .value, .blockEnd] true false a rest
    let (trees, a, rest) ← looseItems? handles fuel a rest
    some (tree :: trees, a, rest)
  | _ + 1, a, rest => some ([], a, rest)

/-- Reads the entries of a table up to the end of its indentation. -/
def blockEntries? (handles : Handles) : (fuel : Nat) → Anchors → List Token → Option (Read (List (Tree × Tree)))
  | 0, _, _ => none
  | fuel + 1, a, .key :: rest => do
    let ends : List Token := [.key, .value, .blockEnd]
    let (key, a, rest) ← nodeUnless? handles fuel ends true true a rest
    let (value, a, rest) ← match rest with
      | .value :: rest => nodeUnless? handles fuel ends true true a rest
      | _ => some (.empty, a.grow 1, rest)
    let (entries, a, rest) ← blockEntries? handles fuel a rest
    some ((key, value) :: entries, a, rest)
  | _ + 1, a, .blockEnd :: rest => some ([], a, rest)
  | _ + 1, _, _ => none

/-- Reads the items of a list up to its closing bracket. A key in it makes its item a table. -/
def flowItems? (handles : Handles) : (fuel : Nat) → (first : Bool) → Anchors → List Token →
    Option (Read (List Tree))
  | 0, _, _, _ => none
  | _ + 1, _, a, .listEnd :: rest => some ([], a, rest)
  | fuel + 1, first, a, tokens => do
    let tokens ← match tokens with
      | .comma :: rest => if first then some tokens else some rest
      | _ => if first then some tokens else none
    match tokens with
    | .listEnd :: rest => some ([], a, rest)
    | .key :: rest => do
      let (entry, a, rest) ← pair? handles fuel (a.grow 2) rest
      let (trees, a, rest) ← flowItems? handles fuel false a rest
      some (.table false [entry] :: trees, a, rest)
    | _ => do
      let (tree, a, rest) ← node? handles fuel false false a tokens
      let (trees, a, rest) ← flowItems? handles fuel false a rest
      some (tree :: trees, a, rest)

/-- Reads the only entry of a table that is an item of a list in brackets. -/
def pair? (handles : Handles) : (fuel : Nat) → Anchors → List Token → Option (Read (Tree × Tree))
  | 0, _, _ => none
  | fuel + 1, a, tokens => do
    let (key, a, rest) ←
      if nextIn tokens [.value, .comma, .listEnd] then some (.empty, a.grow 1, tokens.drop 1)
      else node? handles fuel false false a tokens
    let (value, a, rest) ← match rest with
      | .value :: rest => nodeUnless? handles fuel [.comma, .listEnd] false false a rest
      | _ => some (.empty, a.grow 1, rest)
    some ((key, value), a, rest)

/-- Reads the entries of a table up to its closing brace. -/
def flowEntries? (handles : Handles) :
    (fuel : Nat) → (first : Bool) → Anchors → List Token → Option (Read (List (Tree × Tree)))
  | 0, _, _, _ => none
  | _ + 1, _, a, .tableEnd :: rest => some ([], a, rest)
  | fuel + 1, first, a, tokens => do
    let tokens ← match tokens with
      | .comma :: rest => if first then some tokens else some rest
      | _ => if first then some tokens else none
    match tokens with
    | .tableEnd :: rest => some ([], a, rest)
    | .key :: rest => do
      let (key, a, rest) ← nodeUnless? handles fuel [.value, .comma, .tableEnd] false false a rest
      let (value, a, rest) ← match rest with
        | .value :: rest => nodeUnless? handles fuel [.comma, .tableEnd] false false a rest
        | _ => some (.empty, a.grow 1, rest)
      let (entries, a, rest) ← flowEntries? handles fuel false a rest
      some ((key, value) :: entries, a, rest)
    | _ => do
      let (key, a, rest) ← node? handles fuel false false a tokens
      let (entries, a, rest) ← flowEntries? handles fuel false (a.grow 1) rest
      some ((key, .empty) :: entries, a, rest)

end

/-! ### Documents -/

/-- The one document of a text. -/
structure Document where
  tree : Tree
  anchors : Anchors

/-- The handles that directives define, and the tokens after them. A version must be known, and nothing may
be said twice. -/
def directives? : (versioned : Bool) → Handles → List Token → Option (Handles × List Token)
  | versioned, handles, .directive (.version major minor) :: rest =>
    if versioned || major != 1 || (minor != 1 && minor != 2) then none else directives? true handles rest
  | versioned, handles, .directive (.tag handle meaning) :: rest =>
    if (handles.lookup handle).isSome then none else directives? versioned (handles ++ [(handle, meaning)]) rest
  | _, handles, tokens => some (handles ++ standardHandles, tokens)

/-- The token begins a further document, or ends one. -/
def isBetweenDocuments : Token → Bool
  | .directive _ => true
  | .documentStart => true
  | .documentEnd => true
  | _ => false

namespace Document

/-- The document that begins with these tokens; no other one may follow. -/
def body? (handles : Handles) (tokens : List Token) : Option Document := do
  let (tree, anchors, rest) ← node? handles (4 * tokens.length + 4) true false {} tokens
  if rest.all (· = .documentEnd) then some { tree, anchors } else none

def empty : Document := { tree := .empty, anchors := { size := 1 } }

/-- Reads the document that tokens make up. -/
def ofTokens? (tokens : List Token) : Option Document :=
  match tokens with
  | [] => some empty
  | .documentEnd :: _ => none
  | t :: _ =>
    if isBetweenDocuments t then do
      let (handles, rest) ← directives? false [] tokens
      match rest with
      | [.documentStart] => some empty
      | .documentStart :: t :: rest =>
        if !isBetweenDocuments t then body? handles (t :: rest)
        else if (t :: rest).all (· = .documentEnd) then some empty
        else none
      | _ => none
    else body? standardHandles tokens

/-- Reads the document that a text is. -/
def ofText? (s : List Char) : Option Document := do ofTokens? (← tokens? s)

end Document

end StepTree.Markup
