/-
# Trees as records

A parser in another program hands its trees over as lists:

    [kind, field, start, end, child, …]

where a kind that begins with `~` is that of an anonymous token.

A book of trees lists what came of parsing some texts: for each a tree, or the
offset of a syntax error.
-/

import Moniker.Data.Value
import Moniker.Syntax.Language
import Moniker.Syntax.Tree

namespace Moniker
namespace Tree

mutual

/-- Reads a tree; what is no list is an empty node. -/
def ofValue : Value → Tree
  | .list (kind :: field :: start :: stop :: children) =>
    let (word, named) := match kind.asText.toList with
      | '~' :: rest => (String.ofList rest, false)
      | _ => (kind.asText, true)
    .node word field.asText named start.asInt.toNat stop.asInt.toNat (ofValues children)
  | _ => default

/-- Reads several trees. -/
def ofValues : List Value → List Tree
  | [] => []
  | v :: rest => ofValue v :: ofValues rest

end

end Tree

/-- What came of parsing a text. -/
structure ParsedText where
  language : String
  text : String
  result : Except Nat Tree
deriving Inhabited

/-- What came of parsing some texts. -/
abbrev TreeBook := List ParsedText

namespace TreeBook

/-- Reads one entry of a book. -/
def entry (v : Value) : ParsedText :=
  { language := v.textAt "lang"
    text := v.textAt "text"
    result := match v.field? "tree" with
      | some t => .ok (Tree.ofValue t)
      | none => .error (v.intAt "error").toNat }

/-- Reads a book. -/
def ofValue : Value → TreeBook
  | .list items => items.map entry
  | _ => []

/-- Looks a text up. A text that is not in the book has an error at its start. -/
def parse (b : TreeBook) (language : Language) (contents : ByteArray) : Except Nat Tree :=
  let text := Text.decode contents
  match b.find? fun e => e.language == language.name && e.text == text with
  | some e => e.result
  | none => .error 0

end TreeBook
end Moniker
