/-
# Symbol indexes

Source: `scip.NewIndex`, `Index.Document`, `extractCommitFromToolInfo`,
`looksLikeCommitHash`, `IndexPath`.

An index lists, document by document, where symbols occur.  It is made by another
tool; all that is known of that tool is its name, its version and how it was
called.
-/

import Moniker.Path
import Moniker.Text.Lines

namespace Moniker

/-- One occurrence of a symbol in a document. -/
structure IndexOccurrence where
  /-- Line, column and end column, or line, column, end line and end column. -/
  range : List Int
  symbol : String
  /-- A set of roles; the lowest bit marks a definition. -/
  roles : Int
deriving DecidableEq, Inhabited

/-- Does the occurrence define its symbol? -/
def IndexOccurrence.isDefinition (o : IndexOccurrence) : Bool := o.roles % 2 == 1

/-- The occurrences in one document. -/
structure IndexDocument where
  path : String
  language : String := ""
  unit : Text.ColumnUnit := .halves
  occurrences : List IndexOccurrence := []
deriving Inhabited

/-- The tool that made an index. -/
structure IndexTool where
  name : String := ""
  version : String := ""
  arguments : List String := []
deriving Inhabited

/-- What an index says about itself. -/
structure IndexOrigin where
  version : Int := 0
  root : String := ""
  tool : Option IndexTool := none
deriving Inhabited

/-- An index of a project. -/
structure Index where
  origin : Option IndexOrigin := none
  documents : List IndexDocument := []
deriving Inhabited

namespace IndexTool

/-- Does a text look like the name of a commit: seven to forty hexadecimal
digits? -/
def isCommit (s : String) : Bool :=
  7 ≤ s.length && s.length ≤ 40
  && s.toList.all fun c => c.isDigit || ('a' ≤ c && c ≤ 'f') || ('A' ≤ c && c ≤ 'F')

/-- The nonempty rest of an argument after a flag. -/
def flagValue? (flag arg : String) : Option String :=
  (Text.dropHead? arg flag).filter (· ≠ "")

/-- The commit the arguments tell. -/
def commitOfArguments? : List String → Option String
  | [] => none
  | arg :: rest =>
    match flagValue? "--commit=" arg <|> flagValue? "--git-commit=" arg with
    | some commit => some commit
    | none =>
      match rest with
      | value :: _ => if arg = "-c" then some value else commitOfArguments? rest
      | [] => none

/-- The commit an index was made from: the arguments tell it, or the version is
one. -/
def commit (t : IndexTool) : String :=
  (commitOfArguments? t.arguments).getD (if isCommit t.version then t.version else "")

end IndexTool

namespace Index

/-- The commit an index was made from, empty if that is not known. -/
def commit (i : Index) : String := ((i.origin.bind IndexOrigin.tool).map IndexTool.commit).getD ""

/-- The document at a path; the last one counts. -/
def document? (i : Index) (path : String) : Option IndexDocument :=
  i.documents.reverse.find? fun d => d.path == path

/-- Where the index of a project lies. -/
def location (root configured : String) : String :=
  if Path.isAbsolute configured then configured else Path.join [root, configured]

end Index
end Moniker
