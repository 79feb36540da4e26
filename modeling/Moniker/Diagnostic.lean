/-
# Diagnostics and failures

Source: `errors.MangleError.Error`, `errors.CodeOf`, `errors.GetSuggestedFixes`,
`printError`.

A diagnostic has a stable code, a message and, where they are known, a place in
a source file, details and an underlying cause.  Its text is

    [CODE] message (file@offset): cause

with the parts in round brackets and after the colon left out when absent.

A `Failure` is what ends a command: a plain text, a diagnostic, or either of them
met while doing something else (`note: failure`).
-/

import Moniker.Data.Value

namespace Moniker

/-- The kinds of trouble a diagnostic can report. -/
inductive Code where
  | unresolvedSymbol
  | overlappingEdit
  | unsupportedShape
  | cyclicDependency
  | nameCollision
  | parseFailed
  | fileNotFound
  | configInvalid
  | invalidArgument
  | indexMissing
  | internalError
  | other (name : String)
deriving DecidableEq, Inhabited

namespace Code

/-- The stable name of a code. -/
def name : Code → String
  | unresolvedSymbol => "UNRESOLVED_SYMBOL"
  | overlappingEdit => "OVERLAPPING_EDIT"
  | unsupportedShape => "UNSUPPORTED_DECLARATION_SHAPE"
  | cyclicDependency => "CYCLIC_INLINE_DEPENDENCY"
  | nameCollision => "NAME_COLLISION"
  | parseFailed => "PARSE_FAILED"
  | fileNotFound => "FILE_NOT_FOUND"
  | configInvalid => "CONFIG_INVALID"
  | invalidArgument => "INVALID_ARGUMENT"
  | indexMissing => "INDEX_MISSING"
  | internalError => "INTERNAL_ERROR"
  | other s => s

/-- The codes with a meaning of their own. -/
def known : List Code :=
  [unresolvedSymbol, overlappingEdit, unsupportedShape, cyclicDependency, nameCollision,
    parseFailed, fileNotFound, configInvalid, invalidArgument, indexMissing, internalError]

/-- The code of a name. -/
def ofName (s : String) : Code := (known.find? fun c => c.name == s).getD (other s)

end Code

/-- A place in a source file. -/
structure Place where
  file : String
  offset : Int
deriving DecidableEq, Inhabited

/-- A diagnostic. `cause` is the text of the failure underneath. -/
structure Diagnostic where
  code : Code
  message : String
  place : Option Place := none
  details : Option Value := none
  cause : Option String := none
deriving Inhabited

namespace Diagnostic

/-- The message with its place. -/
def placed (d : Diagnostic) : String :=
  match d.place with
  | some p => d.message ++ " (" ++ p.file ++ "@" ++ toString p.offset ++ ")"
  | none => d.message

/-- The whole text of a diagnostic. -/
def text (d : Diagnostic) : String :=
  let head := "[" ++ d.code.name ++ "] " ++ d.placed
  match d.cause with
  | some c => head ++ ": " ++ c
  | none => head

end Diagnostic

/-- A way out of trouble: a command to run, or a setting to change. -/
inductive Remedy where
  | command (line description : String)
  | setting (key description : String)
deriving Inhabited

/-- The remedies for a kind of trouble. -/
def Code.remedies : Code → List Remedy
  | .indexMissing =>
    [.command "scip-typescript index" "Generate a SCIP index for the project",
      .setting "locator.backend" "Switch to the builtin locator"]
  | .parseFailed =>
    [.command "tsc --noEmit" "Locate the syntax error with the TypeScript compiler"]
  | .unsupportedShape =>
    [.setting "bundle.strict" "Disable strict bundling to keep unsupported imports as-is"]
  | .configInvalid =>
    [.command "tsmangle config validate" "Check the effective configuration"]
  | _ => []

/-- What ends a command. -/
inductive Failure where
  | plain (text : String)
  | coded (d : Diagnostic)
  | during (note : String) (inner : Failure)
deriving Inhabited

namespace Failure

/-- The whole text of a failure. -/
def text : Failure → String
  | plain s => s
  | coded d => d.text
  | during note inner => note ++ ": " ++ inner.text

/-- The diagnostic at the bottom of a failure. -/
def diagnostic? : Failure → Option Diagnostic
  | plain _ => none
  | coded d => some d
  | during _ inner => inner.diagnostic?

/-- The code of a failure; one without a diagnostic is internal. -/
def code (f : Failure) : Code := (f.diagnostic?.map Diagnostic.code).getD .internalError

/-- The message of the diagnostic at the bottom, or the whole text. -/
def brief (f : Failure) : String :=
  match f.diagnostic? with
  | some d => d.message
  | none => f.text

/-- The line a remedy is suggested by. -/
def suggestion : Remedy → String
  | .command line _ => "  Try: " ++ line ++ "\n"
  | .setting _ description => "  Hint: " ++ description ++ "\n"

/-- What a user is shown: the failure and its remedies. -/
def report (f : Failure) : String :=
  "Error: " ++ f.text ++ "\n" ++ String.join (f.code.remedies.map suggestion)

/-- A failure with a code and a message. -/
def of (code : Code) (message : String) : Failure := .coded { code := code, message := message }

end Failure

namespace Remedy

/-- A remedy as a record. -/
def toValue : Remedy → Value
  | .command line description =>
    .record [("type", .str "run-command"), ("command", .str line), ("safe", .bool true),
      ("description", .str description)]
  | .setting key description =>
    .record [("type", .str "edit-config"), ("description", .str description), ("key", .str key)]

end Remedy

namespace Diagnostic

/-- A diagnostic as a record. -/
def toValue (d : Diagnostic) : Value :=
  let place := d.place.toList.map fun p =>
    ("location", Value.record [("file", .str p.file), ("offset", .int p.offset)])
  let details := d.details.toList.map fun v => ("details", v)
  let remedies :=
    if d.code.remedies.isEmpty then []
    else [("suggestedFixes", Value.list (d.code.remedies.map Remedy.toValue))]
  .record
    ([("code", .str d.code.name), ("message", .str d.message)] ++ place ++ details ++ remedies)

end Diagnostic
end Moniker
