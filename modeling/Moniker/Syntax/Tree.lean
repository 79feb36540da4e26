/-
# Syntax trees

Source: `ast.Link`, `ast.Walk`, `Node.ChildByField`, `Node.NamedChildren`,
`Node.FirstNamed`, `Node.NodeAt`, `ast.Unquote`.

A parser hands over a `Tree` per file.  A `Source` lays the trees of all files
out in one array of nodes, numbered in the order in which a reader meets them
(a node before its children, children from left to right, file after file), so
that a node has an identity, a parent and a file.

Nothing is assumed of a tree: ranges may overlap, children may be missing, and
a kind is whatever word the grammar uses.  Every look-up is therefore total; an
identifier out of range denotes an empty node.

| function | answer |
| --- | --- |
| `child?` | the first child under a field |
| `namedChildren` | the named children, comments left out |
| `walk` | the nodes below a node in reading order, pruned on demand |
| `nodeAt?` | the deepest named node over an offset |
-/

import Moniker.Data.Table
import Moniker.Text.Bytes

namespace Moniker

/-- A tree as a parser returns it: kind, field in the parent, whether it is a
named node, byte range, children. -/
inductive Tree where
  | node (kind field : String) (named : Bool) (start stop : Nat) (children : List Tree)
deriving Inhabited

/-- The identity of a syntax node. -/
structure NodeId where
  idx : Nat
deriving DecidableEq, Repr, Inhabited

instance : Numbered NodeId := ⟨NodeId.idx, fun ⟨_⟩ ⟨_⟩ h => congrArg NodeId.mk h⟩

/-- The identity of a file, its place in load order. -/
structure FileId where
  idx : Nat
deriving DecidableEq, Repr, Inhabited

/-- A syntax node. `index` is its place among its parent's children. -/
structure Node where
  kind : String := ""
  field : String := ""
  named : Bool := false
  start : Nat := 0
  stop : Nat := 0
  parent : Option NodeId := none
  index : Nat := 0
  children : List NodeId := []
  file : FileId := ⟨0⟩
deriving Inhabited

/-- A parsed file. -/
structure SourceFile where
  path : String := ""
  contents : ByteArray := ByteArray.empty
  root : NodeId := ⟨0⟩
deriving Inhabited

/-- All files of a program with their nodes. -/
structure Source where
  files : Array SourceFile := #[]
  nodes : Array Node := #[]
deriving Inhabited

mutual

/-- Appends a tree to an array of nodes and returns the number of its root. -/
def Tree.layOut (file : FileId) (parent : Option NodeId) (index : Nat) :
    Tree → Array Node → NodeId × Array Node
  | .node kind field named start stop children, nodes =>
    let id : NodeId := ⟨nodes.size⟩
    let own : Node :=
      { kind := kind, field := field, named := named, start := start, stop := stop,
        parent := parent, index := index, file := file }
    let (ids, nodes) := Tree.layOutAll file id 0 children (nodes.push own)
    (id, nodes.modify id.idx fun n => { n with children := ids })

/-- Appends sibling trees, numbered from `index`. -/
def Tree.layOutAll (file : FileId) (parent : NodeId) (index : Nat) :
    List Tree → Array Node → List NodeId × Array Node
  | [], nodes => ([], nodes)
  | t :: rest, nodes =>
    let (id, nodes) := Tree.layOut file (some parent) index t nodes
    let (ids, nodes) := Tree.layOutAll file parent (index + 1) rest nodes
    (id :: ids, nodes)

end

namespace Source

/-- Adds a file. -/
def add (src : Source) (path : String) (contents : ByteArray) (tree : Tree) : Source :=
  let (root, nodes) := tree.layOut ⟨src.files.size⟩ none 0 src.nodes
  { files := src.files.push { path := path, contents := contents, root := root }, nodes := nodes }

/-- The node of a number. -/
def node (src : Source) (n : NodeId) : Node := src.nodes.getD n.idx default

/-- The file of a number. -/
def file (src : Source) (f : FileId) : SourceFile := src.files.getD f.idx default

/-- All files in load order. -/
def fileIds (src : Source) : List FileId := (List.range src.files.size).map FileId.mk

variable (src : Source)

/-- The grammar's word for a node. -/
def kind (n : NodeId) : String := (src.node n).kind

/-- The field a node has in its parent, empty for none. -/
def field (n : NodeId) : String := (src.node n).field

/-- Is the node more than a token? -/
def named (n : NodeId) : Bool := (src.node n).named

/-- The offset a node begins at. -/
def start (n : NodeId) : Nat := (src.node n).start

/-- The offset a node ends at. -/
def stop (n : NodeId) : Nat := (src.node n).stop

/-- The parent of a node. -/
def parent (n : NodeId) : Option NodeId := (src.node n).parent

/-- All children, tokens and comments included. -/
def children (n : NodeId) : List NodeId := (src.node n).children

/-- The file a node stands in. -/
def fileOf (n : NodeId) : FileId := (src.node n).file

/-- The path of the file a node stands in. -/
def pathOf (n : NodeId) : String := (src.file (src.fileOf n)).path

/-- The bytes a node covers. -/
def bytes (n : NodeId) : ByteArray :=
  let own := src.node n
  Text.slice (src.file own.file).contents own.start own.stop

/-- The text a node covers. -/
def text (n : NodeId) : String := Text.decode (src.bytes n)

/-- Is the node of one of these kinds? -/
def isKind (n : NodeId) (kinds : List String) : Bool := kinds.contains (src.kind n)

/-- The first child under a field. -/
def child? (n : NodeId) (field : String) : Option NodeId :=
  (src.children n).find? fun c => src.field c == field

/-- All children under a field. -/
def childrenUnder (n : NodeId) (field : String) : List NodeId :=
  (src.children n).filter fun c => src.field c == field

/-- Is the node named and not a comment? -/
def isContent (n : NodeId) : Bool := src.named n && src.kind n != "comment"

/-- The named children, comments left out. -/
def namedChildren (n : NodeId) : List NodeId := (src.children n).filter src.isContent

/-- The first named child that is no comment. -/
def firstNamed? (n : NodeId) : Option NodeId := (src.children n).find? src.isContent

/-- The first named child of one of these kinds that is no comment. -/
def firstOfKind? (n : NodeId) (kinds : List String) : Option NodeId :=
  (src.children n).find? fun c => src.isContent c && src.isKind c kinds

/-- Is there a token of this spelling among the children? -/
def hasToken (n : NodeId) (token : String) : Bool :=
  (src.children n).any fun c => !src.named c && src.kind c == token

/-- The proper ancestors of a node, nearest first, at most `fuel` of them. -/
def ancestorsWithin : Nat → NodeId → List NodeId
  | 0, _ => []
  | fuel + 1, n =>
    match src.parent n with
    | none => []
    | some p => p :: ancestorsWithin fuel p

/-- The proper ancestors of a node, nearest first. -/
def ancestors (n : NodeId) : List NodeId := src.ancestorsWithin src.nodes.size n

/-- The nearest proper ancestor of one of these kinds. -/
def ancestor? (n : NodeId) (kinds : List String) : Option NodeId :=
  (src.ancestors n).find? fun p => src.isKind p kinds

/-- The sibling after a node, named or not. -/
def nextSibling? (n : NodeId) : Option NodeId := do
  let p ← src.parent n
  (src.children p)[(src.node n).index + 1]?

/-- Is the offset inside the node? -/
def covers (n : NodeId) (pos : Int) : Bool :=
  decide ((src.start n : Int) ≤ pos) && decide (pos < (src.stop n : Int))

/-- From a node over `pos`, goes down to the first named child over `pos` as
long as there is one. -/
def descendTo (pos : Int) : Nat → NodeId → NodeId
  | 0, n => n
  | fuel + 1, n =>
    match (src.children n).find? fun c => src.named c && src.covers c pos with
    | none => n
    | some c => descendTo pos fuel c

/-- The deepest named node over an offset. -/
def nodeAt? (n : NodeId) (pos : Int) : Option NodeId :=
  if src.covers n pos then some (src.descendTo pos src.nodes.size n) else none

/-- The nodes from `n` down in reading order, at most `fuel` levels deep; the
children of a node that `descend` refuses are left out. -/
def walkWithin (descend : NodeId → Bool) : Nat → NodeId → List NodeId
  | 0, _ => []
  | fuel + 1, n =>
    if descend n then n :: (src.children n).flatMap (walkWithin descend fuel) else [n]

/-- The nodes from `n` down in reading order; the children of a node that
`descend` refuses are left out. -/
def walk (descend : NodeId → Bool) (n : NodeId) : List NodeId :=
  src.walkWithin descend (src.nodes.size + 1) n

/-- All nodes from `n` down in reading order. -/
def below (n : NodeId) : List NodeId := src.walk (fun _ => true) n

/-- All nodes of a file in reading order. -/
def nodesOf (f : FileId) : List NodeId := src.below (src.file f).root

end Source

/-- The characters that may enclose a string literal. -/
def quoteMarks : List Char := [Char.ofNat 0x22, Char.ofNat 0x27, Char.ofNat 0x60]

/-- The text of a string literal without its quotes. A text that does not begin
and end in the same quote is left alone. -/
def unquote (text : String) : String :=
  match text.toList with
  | q :: rest =>
    if quoteMarks.contains q && !rest.isEmpty && rest.getLast? == some q then
      String.ofList rest.dropLast
    else text
  | [] => text

/-- The node's text is the name, as it is or as a string literal. -/
def Source.Spells (src : Source) (n : NodeId) (name : String) : Prop :=
  src.text n = name ∨ ∃ mark ∈ quoteMarks, (src.text n).toList = mark :: (name.toList ++ [mark])

theorem Source.spells_text {src : Source} (n : NodeId) : src.Spells n (src.text n) := .inl rfl

theorem Source.spells_unquote {src : Source} (n : NodeId) : src.Spells n (unquote (src.text n)) := by
  unfold unquote
  split
  · next mark rest htext =>
    split
    · next h =>
      simp only [Bool.and_eq_true, Bool.not_eq_true', beq_iff_eq] at h
      obtain ⟨⟨hmark, -⟩, hlast⟩ := h
      obtain ⟨body, rfl⟩ := List.getLast?_eq_some_iff.mp hlast
      refine .inr ⟨mark, List.contains_iff_mem.mp hmark, ?_⟩
      rw [htext, List.dropLast_concat, String.toList_ofList]
    · exact .inl rfl
  · exact .inl rfl

end Moniker
