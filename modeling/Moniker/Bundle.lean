/-
# Bundling

Source: `bundler.Bundler.Bundle`, `requestFor`, `inline`, `enter`, `shapeOf`,
`freeReferences`, `bind`, `emit`, `claim`, `hoistImport`, `importLine`.

Bundling an entry file copies the declarations it imports, and everything they
depend on, to its top, dependencies first.  A declaration is copied once; under
another name it gets an alias line.

| target | line for local name `l` |
| --- | --- |
| declared under the name `l` | the declaration |
| already copied under `m` | `const l = m;` |
| function, class, or default value of another name | `const l = …;` |
| variable of another name `x` | the declaration, then `const l = x;` |

Imports that cannot be copied are kept, with a report, or end a strict bundle.
Declarations that depend on each other in a circle always end it.

A depth-first traversal with an explicit stack of frames does the work; a target
met again while its frame is open closes a circle.
-/

import Moniker.Program.Occurrences
import Moniker.Text.Quoted

namespace Moniker

/-- The forms of declarations that can be copied. -/
inductive ShapeKind where
  | function
  | ofClass
  | variableDecl
  | defaultValue
deriving DecidableEq, Inhabited

/-- The word a form is shown by. -/
def ShapeKind.name : ShapeKind → String
  | function => "function"
  | ofClass => "class"
  | variableDecl => "variable"
  | defaultValue => "default"

/-- One declaration copied to the top, under a local name. -/
structure Hoisted where
  name : String
  localName : String
  origin : String
  shape : ShapeKind
deriving DecidableEq, Inhabited

/-- What happened during bundling, in order. -/
inductive BundleEvent where
  | hoisted (target : SymbolId) (h : Hoisted)
  | warned (d : Diagnostic)
deriving Inhabited

/-- A bundled entry file. -/
structure BundleResult where
  entry : String
  code : String
  /-- How many lines were put before the entry's own statements. -/
  lines : Nat
  events : List BundleEvent
deriving Inhabited

namespace BundleResult

/-- The declarations copied. -/
def hoisted (r : BundleResult) : List Hoisted :=
  r.events.filterMap fun
    | .hoisted _ h => some h
    | .warned _ => none

/-- The problems that did not stop the bundle. -/
def diagnostics (r : BundleResult) : List Diagnostic :=
  r.events.filterMap fun
    | .warned d => some d
    | .hoisted _ _ => none

end BundleResult

namespace Bundle

/-- Asks for a target to be available under a local name. `cause` is the node that
asks. -/
structure Request where
  localName : String
  target : SymbolId
  cause : NodeId
deriving DecidableEq, Inhabited

/-- A declaration to copy. -/
structure Shape where
  kind : ShapeKind
  decl : NodeId
deriving DecidableEq, Inhabited

/-- A target whose dependencies are being copied. -/
structure Frame where
  request : Request
  shape : Shape
  /-- The dependencies still to be entered. -/
  pending : List Request
deriving Inhabited

/-- How far a target is. -/
inductive Progress where
  | unvisited
  | inlining
  | inlined (shape : Shape)
deriving DecidableEq, Inhabited

/-- A line put before the entry's own statements. -/
inductive Line where
  /-- A declaration as it is written. -/
  | declaration (target : SymbolId) (decl : NodeId)
  /-- A declaration as the value of another name. -/
  | value (localName : String) (target : SymbolId) (decl : NodeId)
  /-- One more name for a target. -/
  | another (localName : String) (target : SymbolId) (known : String)
  /-- An import that a copied declaration needs. -/
  | kept (text : String)
deriving Inhabited

/-- The line as it is written. -/
def Line.text (src : Source) : Line → String
  | declaration _ decl => src.text decl
  | value localName _ decl => "const " ++ localName ++ " = " ++ src.text decl ++ ";"
  | another localName _ known => "const " ++ localName ++ " = " ++ known ++ ";"
  | kept text => text

/-- The state of a bundle. -/
structure State where
  progress : Table SymbolId Progress := {}
  stack : List Frame := []
  /-- The top-level names each target is available under. -/
  bound : Table SymbolId (List String) := {}
  emitted : KeySet NodeId := {}
  /-- Whose each top-level name is. -/
  owners : Table String SymbolId := {}
  keptLines : List String := []
  lines : Array Line := #[]
  events : Array BundleEvent := #[]
deriving Inhabited

/-- A step of a bundle: it may fail, and then the bundle as a whole may. -/
abbrev BundleM := ExceptT Diagnostic (StateT State Build)

/-- Reads something off the program. -/
def ofProgram (f : Program → α) : BundleM α := do return f (← getThe Program)

/-- Changes the state by what the program says. -/
def change (f : Program → State → State) : BundleM Unit := do
  let p ← getThe Program
  modifyThe State (f p)

/-- A diagnostic at a node. -/
def reportAt (p : Program) (code : Code) (message : String) (n : NodeId) : Diagnostic :=
  { code := code, message := message,
    place := some ⟨p.source.pathOf n, p.source.start n⟩ }

/-- The declaration to copy for a symbol. -/
def shapeOf? (p : Program) (s : SymbolId) : Option Shape :=
  let sym := p.symbol s
  let src := p.source
  if sym.has .ambient then none
  else
    sym.decls.findSome? fun d => do
      let parent ← src.parent d
      if src.kind parent == "export_statement"
          && (src.field d == "value" || src.field d == "declaration") then
        return ⟨.defaultValue, d⟩
      else if sym.has .functionDecl
          && src.isKind parent ["function_declaration", "generator_function_declaration"] then
        return ⟨.function, parent⟩
      else if sym.has .classDecl && src.kind parent == "class_declaration" then
        return ⟨.ofClass, parent⟩
      else if sym.has .variableDecl && !sym.has .parameter then
        let stmt ← src.ancestor? d ["lexical_declaration", "variable_declaration"]
        return ⟨.variableDecl, stmt⟩
      else none

/-- Does one of the symbol's declarations lie inside the node? -/
def declaredWithin (p : Program) (s : SymbolId) (n : NodeId) : Bool :=
  let src := p.source
  (p.symbol s).decls.any fun d =>
    src.fileOf d == src.fileOf n && src.start n ≤ src.start d && src.stop d ≤ src.stop n

/-- The import statement that introduces a binding; the last one counts. -/
def importOf? (p : Program) (binding : SymbolId) : Option Import :=
  (p.moduleOf (p.symbol binding).file).imports.reverse.find? fun i => i.bindings.contains binding

/-- What an import binding asks for. `none` means that nothing has to be copied. -/
def requestFor (entry : FileId) (binding : SymbolId) (imp : Import) :
    Build (Except Diagnostic (Option Request)) := do
  let p ← get
  let sym := p.symbol binding
  match sym.decls with
  | [] => return .ok none
  | decl :: _ =>
    if imp.typeOnly then return .ok none
    else if sym.has .namespaceImport then
      return .error (reportAt p .unsupportedShape
        ("namespace import " ++ sym.name ++ " of " ++ Text.quote imp.specifier) decl)
    else if p.isExternal (p.source.fileOf decl) imp.specifier then
      return .error (reportAt p .unsupportedShape
        ("import of " ++ sym.name ++ " from external module " ++ Text.quote imp.specifier) decl)
    else
      match ← Build.resolveAlias binding with
      | none =>
        return .error (reportAt p .unresolvedSymbol
          (Text.quote imp.specifier ++ " does not export " ++ sym.importedName) decl)
      | some target =>
        let file ← Build.read fun p => (p.symbol target).file
        if file == entry then return .ok none
        else return .ok (some ⟨sym.name, target, decl⟩)

/-- The specifier of an import as it is written, quotes included. -/
def writtenSpecifier (p : Program) (imp : Import) : String :=
  match p.source.child? imp.node "source" with
  | some s => p.source.text s
  | none => "\"" ++ imp.specifier ++ "\""

/-- An import statement restricted to some of its bindings. -/
def importLine (p : Program) (imp : Import) (bindings : List SymbolId) : String :=
  let syms := bindings.map p.symbol
  let isWhole (s : Symbol) : Bool := s.has .namespaceImport || s.importedName == "default"
  let heads := (syms.filter isWhole).map fun s =>
    if s.has .namespaceImport then "* as " ++ s.name else s.name
  let named := (syms.filter fun s => !isWhole s).map fun s =>
    if s.importedName == s.name then s.name else s.importedName ++ " as " ++ s.name
  let clause :=
    if named.isEmpty then heads else heads ++ ["\x7b " ++ Text.join ", " named ++ " \x7d"]
  "import " ++ (if imp.typeOnly then "type " else "") ++ Text.join ", " clause ++ " from "
    ++ writtenSpecifier p imp ++ ";"

/-- The symbols a declaration uses, type names apart, and does not declare, each
at its first use. -/
def usedSymbols (p : Program) (decl : NodeId) : List (SymbolId × NodeId) :=
  let uses := (p.source.below decl).filterMap fun n =>
    if p.source.kind n == "type_identifier" then none
    else ((p.referenced[n]?).filter fun s => !declaredWithin p s decl).map fun s => (s, n)
  uses.foldl (fun acc u => if acc.any fun a => a.1 == u.1 then acc else acc ++ [u]) []

/-- A symbol with the file it comes from. -/
def describe (p : Program) (s : SymbolId) : String :=
  (p.symbol s).name ++ " (" ++ (p.source.file (p.symbol s).file).path ++ ")"

namespace State

/-- How far a target is. -/
def progressOf (s : State) (target : SymbolId) : Progress := s.progress.getD target .unvisited

/-- The top-level names a target is available under. -/
def namesOf (s : State) (target : SymbolId) : List String := s.bound.getD target []

/-- Reports a problem. -/
def warn (s : State) (d : Diagnostic) : State := { s with events := s.events.push (.warned d) }

/-- Adds a line to the top. -/
def emit (s : State) (l : Line) : State := { s with lines := s.lines.push l }

/-- Adds an import line, unless it is there. -/
def keepImport (s : State) (line : String) : State :=
  if s.keptLines.contains line then s
  else { s with keptLines := line :: s.keptLines }.emit (.kept line)

/-- Copies a declaration. -/
def copy (s : State) (target : SymbolId) (decl : NodeId) : State :=
  { s with emitted := s.emitted.insert decl }.emit (.declaration target decl)

/-- Gives a top-level name to a symbol, with a report if another symbol has it. -/
def claim (s : State) (p : Program) (name : String) (owner : SymbolId) (cause : NodeId) : State :=
  let warned :=
    match (s.owners[name]?).filter fun prev => prev != owner with
    | some prev =>
      s.warn (reportAt p .nameCollision
        ("top-level name " ++ name ++ " is declared by both " ++ describe p prev ++ " and "
          ++ describe p owner) cause)
    | none => s
  { warned with owners := warned.owners.insert name owner }

/-- Makes a target available under a name that is its own from now on. -/
def addName (s : State) (p : Program) (target : SymbolId) (name : String) (cause : NodeId) : State :=
  let s := s.claim p name target cause
  { s with bound := s.bound.insert target (s.namesOf target ++ [name]) }

/-- Adds the lines that introduce a target under the name it is asked for by. -/
def introduce (s : State) (p : Program) (r : Request) (sh : Shape) : State :=
  let name := (p.symbol r.target).name
  let isOwnName := sh.kind != .defaultValue && r.localName == name
  let isEmitted := s.emitted.contains sh.decl
  if isOwnName && isEmitted then s
  else
    match s.namesOf r.target with
    | first :: _ => s.emit (.another r.localName r.target first)
    | [] =>
      if isOwnName then s.copy r.target sh.decl
      else if sh.kind != .variableDecl then s.emit (.value r.localName r.target sh.decl)
      else
        let copied :=
          if isEmitted then s
          else (s.copy r.target sh.decl).addName p r.target name r.cause
        copied.emit (.another r.localName r.target name)

/-- Makes a target available under the name it is asked for by, unless it is. -/
def bind (s : State) (p : Program) (r : Request) (sh : Shape) : State :=
  if (s.namesOf r.target).contains r.localName then s
  else
    let s := (s.introduce p r sh).addName p r.target r.localName r.cause
    let target := p.symbol r.target
    let h : Hoisted := ⟨target.name, r.localName, (p.source.file target.file).path, sh.kind⟩
    { s with events := s.events.push (.hoisted r.target h) }

/-- Opens a frame for a request. -/
def push (s : State) (r : Request) (sh : Shape) (deps : List Request) : State :=
  { s with
    progress := s.progress.insert r.target .inlining
    stack := ⟨r, sh, deps⟩ :: s.stack }

/-- Closes the topmost frame: its target is copied. -/
def pop (s : State) (p : Program) (top : Frame) (rest : List Frame) : State :=
  { s with
    stack := rest
    progress := s.progress.insert top.request.target (.inlined top.shape) }.bind p
      top.request top.shape

end State

/-- Reports a problem and goes on. -/
def warn (d : Diagnostic) : BundleM Unit := modifyThe State (·.warn d)

/-- What the use of a symbol in a declaration asks for. An import that cannot be
copied is kept, and ends a strict bundle. -/
def requestOfUse (entry : FileId) (strict : Bool) (decl : NodeId) (use : SymbolId × NodeId) :
    BundleM (Option Request) := do
  let p ← getThe Program
  let (s, n) := use
  let sym := p.symbol s
  let file := p.source.fileOf decl
  if sym.has .importBinding || sym.has .namespaceImport then
    match importOf? p s with
    | none => return none
    | some imp =>
      match ← (requestFor entry s imp : Build _) with
      | .error d =>
        if strict then throw d
        else
          warn d
          change fun p state => state.keepImport (importLine p imp [s])
          return none
      | .ok none => return none
      | .ok (some r) => return some { r with cause := n }
  else if sym.scope == some (p.moduleOf file).scope && file != entry then
    return some ⟨sym.name, s, n⟩
  else return none

/-- The module-level values a declaration needs, in the order of their first use. -/
def freeReferences (entry : FileId) (strict : Bool) (decl : NodeId) :
    BundleM (List Request) := do
  let uses ← ofProgram fun p => usedSymbols p decl
  return (← uses.mapM (requestOfUse entry strict decl)).filterMap id

/-- The report of a circle that a request closes. -/
def cycle (p : Program) (stack : List Frame) (r : Request) : Diagnostic :=
  let open_ := stack.takeWhile fun f => f.request.target != r.target
  let frames := (stack.take (open_.length + 1)).reverse
  let chain := frames.map (fun f => (p.symbol f.request.target).name) ++ [(p.symbol r.target).name]
  { reportAt p .cyclicDependency ("cyclic dependency " ++ Text.join " -> " chain) r.cause with
    details := some (Value.ofTexts chain) }

/-- Opens a frame for a request, or binds it at once if its target is copied. -/
def enter (entry : FileId) (strict : Bool) (r : Request) : BundleM Unit := do
  let s ← getThe State
  let p ← getThe Program
  match s.progressOf r.target with
  | .inlined sh => change fun p s => s.bind p r sh
  | .inlining => throw (cycle p s.stack r)
  | .unvisited =>
    match shapeOf? p r.target with
    | none =>
      throw (reportAt p .unsupportedShape
        ((p.symbol r.target).name ++ " is not a function, class or variable declaration") r.cause)
    | some sh =>
      let deps ← freeReferences entry strict sh.decl
      modifyThe State fun s => s.push r sh deps

/-- Does a problem end the bundle? -/
def isFatal (strict : Bool) (d : Diagnostic) : Bool := strict || d.code == .cyclicDependency

/-- Runs a step and returns its problem instead of failing. -/
def attempt (step : BundleM α) : BundleM (Except Diagnostic α) :=
  ExceptT.mk do return .ok (← step.run)

/-- Works on the topmost frame until the stack is empty, at most `fuel` times. -/
def unwind (entry : FileId) (strict : Bool) : Nat → BundleM Unit
  | 0 => pure ()
  | fuel + 1 => do
    match (← getThe State).stack with
    | [] => pure ()
    | top :: rest =>
      match top.pending with
      | dep :: deps =>
        modifyThe State fun s => { s with stack := { top with pending := deps } :: rest }
        match ← attempt (enter entry strict dep) with
        | .ok () => pure ()
        | .error d => if isFatal strict d then throw d else warn d
      | [] => change fun p s => s.pop p top rest
      unwind entry strict fuel

/-- A bound on the steps of a traversal: every symbol is entered once, and what a
declaration depends on are different symbols that identifiers denote. -/
def stepBound (p : Program) : Nat := (p.symbols.size + 1) * (p.referenced.size + 2)

/-- Copies a target and what it depends on. A failure leaves no open frame. -/
def inline (entry : FileId) (strict : Bool) (r : Request) : BundleM Unit := do
  let bound ← ofProgram stepBound
  let outcome ← attempt do
    enter entry strict r
    unwind entry strict bound
  match outcome with
  | .ok () => pure ()
  | .error d =>
    modifyThe State fun s => { s with stack := [] }
    throw d

/-- Reports something that is kept as it is; a strict bundle fails. -/
def unsupported (strict : Bool) (message : String) (n : NodeId) : BundleM Unit := do
  let p ← getThe Program
  let d := reportAt p .unsupportedShape message n
  if strict then throw d else warn d

/-- The bindings of an import that cannot be copied; the others are. -/
def inlineBindings (entry : FileId) (strict : Bool) (imp : Import) : BundleM (List SymbolId) :=
  imp.bindings.foldlM (fun kept binding => do
    let outcome ← attempt do
      match ← (requestFor entry binding imp : Build _) with
      | .error d => throw d
      | .ok none => pure ()
      | .ok (some r) => inline entry strict r
    match outcome with
    | .ok () => return kept
    | .error d =>
      if isFatal strict d then throw d
      else
        warn d
        return kept ++ [binding]) []

/-- Copies what an import of the entry binds and returns what is left of the
statement, empty if nothing is. -/
def bundleImport (entry : FileId) (strict : Bool) (imp : Import) : BundleM String := do
  let text ← ofProgram fun p => p.source.text imp.node
  if imp.isSideEffect || imp.typeOnly then
    let what := if imp.typeOnly then "type-only import" else "side-effect import"
    unsupported strict (what ++ " of " ++ Text.quote imp.specifier) imp.node
    return text
  else
    let kept ← inlineBindings entry strict imp
    if kept.isEmpty then return ""
    else if kept.length == imp.bindings.length then return text
    else ofProgram fun p => importLine p imp kept

/-- Reports an entry statement that re-exports another module. -/
def checkReexport (strict : Bool) (stmt : NodeId) : BundleM Unit := do
  let src ← ofProgram Program.source
  if src.kind stmt == "export_statement" then
    match src.child? stmt "source" with
    | some s => unsupported strict ("re-export from " ++ src.text s) stmt
    | none => pure ()

/-- The names an entry file declares itself. -/
def entryOwners (p : Program) (entry : FileId) : Table String SymbolId :=
  let syms := (p.scope (p.moduleOf entry).scope).symbols
  (syms.filter fun s =>
      !((p.symbol s).has .importBinding || (p.symbol s).has .namespaceImport)).foldl
    (fun m s => m.insert (p.symbol s).name s) {}

/-- Bundles an entry file and returns the statements that are left of it. -/
def bundleEntry (entry : FileId) (strict : Bool) : BundleM (List String) := do
  let p ← getThe Program
  let imports := (p.moduleOf entry).imports
  let left ← imports.mapM fun imp => do return (imp.node, ← bundleImport entry strict imp)
  let statements := (p.source.children (p.source.file entry).root).filter p.source.named
  let body ← statements.mapM fun stmt => do
    match (left.reverse.find? fun l => l.1 == stmt).map Prod.snd with
    | some text => return if text == "" then [] else [text]
    | none =>
      checkReexport strict stmt
      return [p.source.text stmt]
  return body.flatten

/-- The bundle of an entry file: the lines put before what is left of its statements. -/
def State.result (s : State) (src : Source) (entry : FileId) (body : List String) :
    BundleResult where
  entry := (src.file entry).path
  code := Text.join "\n" (s.lines.toList.map (Line.text src) ++ body)
  lines := s.lines.size
  events := s.events.toList

/-- The state a bundle begins with: the entry's own names are taken. -/
def State.start (p : Program) (entry : FileId) : State := { owners := entryOwners p entry }

/-- Runs the bundling of an entry file. -/
def run (entry : FileId) (strict : Bool) : Build (Except Diagnostic (List String) × State) := do
  let start ← Build.read fun p => State.start p entry
  (bundleEntry entry strict).run.run start

end Bundle

/-- Bundles the file at a path: the result, or the problem that ended the bundle,
with what happened up to then. -/
def bundle (path : String) (strict : Bool) :
    Build (Except Failure BundleResult × List BundleEvent) := do
  match ← Build.read fun p => p.fileAt? path with
  | none =>
    return (.error (.of .fileNotFound ("entry " ++ path ++ " is not part of the program")), [])
  | some entry =>
    let (outcome, s) ← Bundle.run entry strict
    let events := s.events.toList
    match outcome with
    | .error d => return (.error (.coded d), events)
    | .ok body => return (.ok (s.result (← Build.read Program.source) entry body), events)

end Moniker
