/-
# Finding declarations

Source: `program.binder.bind`, `bindFunctionLike`, `bindClass`, `bindInterface`,
`bindEnum`, `bindNamespace`, `bindAmbient`, `bindImport`, `bindExport`.

One pass over a file's tree creates its scopes and declares its names.  Each kind
of node has a rule here; a kind without a rule of its own just has its named
children visited in the same scope.

The rules are written over a `Visit` for the nodes below, and `visitWithin` ties
the knot: a tree of `n` nodes is never deeper than `n`, so that many levels are
always enough.

| node | scope it introduces |
| --- | --- |
| function, method, signature, function type, namespace | function |
| class | class |
| block, loop, `catch`, switch body, interface, type alias, mapped type | block |
| static block | function |
-/

import Moniker.Binding.Declare

namespace Moniker
namespace Binding

/-- How the nodes below a node are visited. -/
abbrev Visit := Site → NodeId → ScopeId → Bind Unit

variable (src : Source) (visit : Visit)

/-- Visits a node that may be missing. -/
def visit? (site : Site) (n? : Option NodeId) (s : ScopeId) : Bind Unit :=
  match n? with
  | none => pure ()
  | some n => visit site n s

/-- Visits the named children of a node. -/
def visitChildren (site : Site) (n : NodeId) (s : ScopeId) : Bind Unit :=
  ((src.children n).filter src.named).forM fun c => visit site c s

/-- Visits the child under a field. -/
def visitField (site : Site) (n : NodeId) (field : String) (s : ScopeId) : Bind Unit :=
  visit? visit site (src.child? n field) s

/-- Introduces a scope at a node. -/
def openScope (kind : ScopeKind) (outer : ScopeId) (n : NodeId) : Bind ScopeId := do
  let s ← Build.newScope kind (some outer) (some n)
  Build.setScopeAt n s
  return s

/-- Runs a visit and returns the symbols it declared in `s`. -/
def collectDeclared (site : Site) (n : NodeId) (s : ScopeId) : Bind (List SymbolId) := do
  let before ← get
  set ([] : List SymbolId)
  visit { site with collecting := some s } n s
  let found ← get
  set before
  return found

/-- Declares every name that a binding pattern introduces and visits its default
values and computed keys. The symbol is returned if the pattern is just a name. -/
def declarePattern (site : Site) (s : ScopeId) (traits : Traits) :
    Nat → NodeId → Bind (Option SymbolId)
  | 0, _ => return none
  | fuel + 1, n => do
    let sub (n? : Option NodeId) : Bind Unit :=
      match n? with
      | none => pure ()
      | some c => do let _ ← declarePattern site s traits fuel c
    match src.kind n with
    | "identifier" | "shorthand_property_identifier_pattern" =>
      return some (← declare src site s n traits)
    | "object_pattern" =>
      (src.namedChildren n).forM fun c => do
        match src.kind c with
        | "shorthand_property_identifier_pattern" => let _ ← declare src site s c traits
        | "pair_pattern" =>
          match src.child? c "key" with
          | some key => if src.kind key == "computed_property_name" then visit site key s
          | none => pure ()
          sub (src.child? c "value")
        | "object_assignment_pattern" =>
          sub (src.child? c "left")
          visitField src visit site c "right" s
        | "rest_pattern" => sub (src.firstNamed? c)
        | _ => visit site c s
      return none
    | "array_pattern" =>
      (src.namedChildren n).forM fun c => sub (some c)
      return none
    | "assignment_pattern" =>
      sub (src.child? n "left")
      visitField src visit site n "right" s
      return none
    | "rest_pattern" =>
      sub (src.firstNamed? n)
      return none
    | _ =>
      visit site n s
      return none

/-- Declares the names of a pattern that may be missing. -/
def declarePattern? (site : Site) (s : ScopeId) (traits : Traits) (n? : Option NodeId) :
    Bind (Option SymbolId) :=
  match n? with
  | none => return none
  | some n => declarePattern src visit site s traits (src.nodes.size + 1) n

/-- What a parameter is. -/
def parameterTraits : Traits := Traits.of [.variableDecl, .parameter]

/-- Does the parameter also declare a property of its class? -/
def isParameterProperty (param : NodeId) : Bool :=
  (src.firstOfKind? param ["accessibility_modifier", "override_modifier"]).isSome
  || src.hasToken param "readonly"

/-- Is the declaration marked `private`? -/
def isMarkedPrivate (n : NodeId) : Bool :=
  match src.firstOfKind? n ["accessibility_modifier"] with
  | some m => src.text m == "private"
  | none => false

/-- Is the child under `name` spelled like this? -/
def isNamed (n : NodeId) (text : String) : Bool :=
  match src.child? n "name" with
  | some name => src.text name == text
  | none => false

/-- Makes a constructor parameter a property of its class. -/
def addParameterProperty (cls : SymbolId) (sym : SymbolId) (isPrivate : Bool) : Build Unit := do
  Build.updateSymbol sym fun s =>
    { s with
      traits := (s.traits.insert .property).insertIf isPrivate .softPrivate
      owner := some cls }
  let table ← Build.ensureMembers cls
  let name ← Build.read fun p => (p.symbol sym).name
  Build.addMember table name sym

/-- Declares the parameters of a function. -/
def visitParameters (site : Site) (fn params : NodeId) (fs : ScopeId) : Bind Unit := do
  let isConstructor := src.kind fn == "method_definition" && isNamed src fn "constructor"
  (src.namedChildren params).forM fun param => do
    if src.isKind param ["required_parameter", "optional_parameter"] then
      match src.child? param "pattern" with
      | none => visitField src visit site param "type" fs
      | some pattern =>
        if src.kind pattern == "this" then visitField src visit site param "type" fs
        else
          let sym? ← declarePattern? src visit site fs parameterTraits (some pattern)
          match sym?, site.enclosing with
          | some sym, some cls =>
            if isConstructor && isParameterProperty src param then
              addParameterProperty cls sym (isMarkedPrivate src param)
          | _, _ => pure ()
          visitField src visit site param "type" fs
          visitField src visit site param "value" fs
    else
      let _ ← declarePattern? src visit site fs parameterTraits (some param)

/-- Introduces the scope of a function and visits its parts. -/
def visitFunction (site : Site) (n : NodeId) (s : ScopeId) : Bind ScopeId := do
  let fs ← openScope .function s n
  ((src.children n).filter src.named).forM fun c => do
    match src.field c with
    | "name" => if src.kind c == "computed_property_name" then visit site c s
    | "parameters" => visitParameters src visit site n c fs
    | "parameter" => let _ ← declare src site fs c parameterTraits
    | "body" =>
      if src.kind c == "statement_block" then
        Build.setScopeAt c fs
        visitChildren src visit site c fs
      else visit site c fs
    | _ => visit site c fs
  return fs

/-- Adds what a class or interface extends or implements. -/
def addHeritage (sym : SymbolId) (n : NodeId) : Bind Unit :=
  Build.updateSymbol sym fun s => { s with heritage := s.heritage ++ [n] }

/-- Visits what a class extends and implements. -/
def visitHeritage (site : Site) (sym : SymbolId) (heritage : NodeId) (cs : ScopeId) :
    Bind Unit :=
  (src.namedChildren heritage).forM fun clause => do
    match src.kind clause with
    | "extends_clause" =>
      (src.namedChildren clause).forM fun c => do
        visit site c cs
        if src.field c == "value" then addHeritage sym c
    | "implements_clause" =>
      (src.namedChildren clause).forM fun c => do
        visit site c cs
        addHeritage sym c
    | _ =>
      visit site clause cs
      addHeritage sym clause

/-- Declares a member of a class on the side it belongs to. -/
def declareClassMember (site : Site) (cls : SymbolId) (cs : ScopeId) (member : NodeId)
    (name? : Option NodeId) (traits : Traits) : Bind Unit := do
  match name? with
  | none => pure ()
  | some name =>
    if src.kind name == "computed_property_name" then visit site name cs
    else
      let isStatic := src.hasToken member "static"
      let table ← if isStatic then Build.ensureStatics cls else Build.ensureMembers cls
      let traits := traits.insertIf isStatic .static
      let traits := traits.insertIf (isMarkedPrivate src member) .softPrivate
      let traits := traits.insertIf (src.kind name == "private_property_identifier") .hardPrivate
      let _ ← declareMember src site.file site.ambient table cls name traits

/-- Visits one member of a class body. -/
def visitClassMember (site : Site) (cls : SymbolId) (cs : ScopeId) (member : NodeId) :
    Bind Unit := do
  match src.kind member with
  | "method_definition" | "method_signature" | "abstract_method_signature" =>
    let isAccessor := src.hasToken member "get" || src.hasToken member "set"
    if !isNamed src member "constructor" then
      declareClassMember src visit site cls cs member (src.child? member "name")
        (Traits.of [if isAccessor then .property else .method])
    let _ ← visitFunction src visit site member cs
  | "public_field_definition" | "field_definition" =>
    let name? := src.child? member "name" <|> src.child? member "property"
    declareClassMember src visit site cls cs member name? (Traits.of [.property])
    visitField src visit site member "type" cs
    visitField src visit site member "value" cs
    (src.childrenUnder member "decorator").forM fun d => visit site d cs
  | _ => visit site member cs

/-- The symbol of a class: a declaration is declared around the class, a named
expression inside it, and a nameless class is a symbol without a scope. -/
def declareClass (site : Site) (n : NodeId) (s cs : ScopeId) : Bind SymbolId := do
  match src.child? n "name" with
  | some name =>
    let where_ := if src.kind n == "class" then cs else s
    declare src site where_ name (Traits.of [.classDecl, .blockScoped])
  | none =>
    Build.newSymbol
      { name := "default", traits := (Traits.of [.classDecl]).insertIf site.ambient .ambient,
        decls := [n], file := site.file }

/-- Declares a class and its members. -/
def visitClass (site : Site) (n : NodeId) (s : ScopeId) : Bind Unit := do
  let cs ← openScope .ofClass s n
  let cls ← declareClass src site n s cs
  let _ ← Build.ensureMembers cls
  let _ ← Build.ensureStatics cls
  modifyThe Program fun p => p.markClass n cls
  visitField src visit site n "type_parameters" cs
  match src.firstOfKind? n ["class_heritage"] with
  | some heritage => visitHeritage src visit site cls heritage cs
  | none => pure ()
  (src.childrenUnder n "decorator").forM fun d => visit site d s
  match src.child? n "body" with
  | none => pure ()
  | some body =>
    (src.namedChildren body).forM fun member =>
      visitClassMember src visit { site with enclosing := some cls } cls cs member

/-- Declares the members of an interface or object type. -/
def visitShapeBody (site : Site) (body : NodeId) (owner : SymbolId) (s : ScopeId) :
    Bind Unit := do
  let table ← Build.ensureMembers owner
  (src.namedChildren body).forM fun member => do
    let declareNamed (name : NodeId) (t : Trait) : Bind Unit := do
      let _ ← declareMember src site.file site.ambient table owner name (Traits.of [t])
    match src.kind member with
    | "property_signature" =>
      match src.child? member "name" with
      | some name =>
        if src.kind name == "computed_property_name" then visit site name s
        else declareNamed name .property
      | none => pure ()
      visitField src visit site member "type" s
    | "method_signature" =>
      match src.child? member "name" with
      | some name =>
        if src.kind name != "computed_property_name" then declareNamed name .method
      | none => pure ()
      let _ ← visitFunction src visit site member s
    | _ => visit site member s

/-- Declares an interface and its members. -/
def visitInterface (site : Site) (n : NodeId) (s : ScopeId) : Bind Unit := do
  match ← declare? src site s (src.child? n "name") (Traits.of [.interfaceDecl]) with
  | none => pure ()
  | some sym =>
    let _ ← Build.ensureMembers sym
    let is ← openScope .block s n
    visitField src visit site n "type_parameters" is
    match src.firstOfKind? n ["extends_type_clause"] with
    | some ext =>
      (src.namedChildren ext).forM fun t => do
        visit site t is
        addHeritage sym t
    | none => pure ()
    match src.child? n "body" with
    | some body =>
      modifyThe Program fun p => p.markShape body sym
      visitShapeBody src visit site body sym is
    | none => pure ()

/-- Declares an enum and its members. -/
def visitEnum (site : Site) (n : NodeId) (s : ScopeId) : Bind Unit := do
  match ← declare? src site s (src.child? n "name") (Traits.of [.enumDecl, .blockScoped]) with
  | none => pure ()
  | some sym =>
    let table ← Build.ensureMembers sym
    let declareOne (name : NodeId) : Bind Unit := do
      let _ ← declareMember src site.file site.ambient table sym name (Traits.of [.enumMember])
    match src.child? n "body" with
    | none => pure ()
    | some body =>
      (src.namedChildren body).forM fun c => do
        match src.kind c with
        | "property_identifier" | "string" => declareOne c
        | "enum_assignment" =>
          match src.child? c "name" with
          | some name => declareOne name
          | none => pure ()
          visitField src visit site c "value" s
        | _ => pure ()

/-- The head of a dotted name. -/
def headOfName : Nat → NodeId → Option NodeId
  | 0, n => some n
  | fuel + 1, n =>
    if src.kind n == "nested_identifier" then
      match src.firstOfKind? n ["identifier", "nested_identifier"] with
      | some inner => headOfName fuel inner
      | none => none
    else some n

/-- The module an ambient module declaration belongs to, made on first sight. -/
def ambientModule (site : Site) (n : NodeId) (name : String) : Build ModuleId := do
  match (← get).ambientByName[name]? with
  | some m => return m
  | none =>
    let scope ← Build.newScope .ofModule (some Program.globalScope) (some n)
    let symbol ← Build.newSymbol
      { name := name, traits := Traits.of [.moduleItself, .ambient], file := site.file }
    let id : ModuleId := ⟨(← get).modules.size⟩
    modify fun p => p.addAmbient
      { name := name, file := site.file, scope := scope, isAmbient := true, symbol := symbol }
    return id

/-- Declares the contents of an ambient module. Everything in it is exported. -/
def visitAmbientModule (site : Site) (n : NodeId) (name : String) : Bind Unit := do
  let m ← ambientModule site n name
  let scope ← Build.read fun p => (p.moduleInfo m).scope
  Build.setScopeAt n scope
  let inner := { site with module := m, ambient := true }
  match src.child? n "body" with
  | none => pure ()
  | some body =>
    Build.setScopeAt body scope
    (src.namedChildren body).forM fun c => do
      if src.isKind c ["export_statement", "import_statement"] then visit inner c scope
      else
        let found ← collectDeclared visit inner c scope
        found.forM fun sym => do
          let name ← Build.read fun p => (p.symbol sym).name
          Build.updateModule m fun mi => mi.addExport name sym

/-- Declares a namespace. What its body exports becomes a member of it. -/
def visitNamespace (site : Site) (n : NodeId) (s : ScopeId) : Bind Unit := do
  match src.child? n "name" with
  | none => pure ()
  | some name =>
    if src.kind name == "string" then
      visitAmbientModule src visit site n (unquote (src.text name))
    else
      match ← declare? src site s (headOfName src (src.nodes.size + 1) name)
          (Traits.of [.namespaceDecl]) with
      | none => pure ()
      | some sym =>
        let table ← Build.ensureMembers sym
        let ns ← openScope .function s n
        match src.child? n "body" with
        | none => pure ()
        | some body =>
          Build.setScopeAt body ns
          (src.namedChildren body).forM fun c => do
            let exported? :=
              if src.kind c == "export_statement" then src.child? c "declaration" else none
            match exported? with
            | some decl =>
              let found ← collectDeclared visit site decl ns
              found.forM fun d => do
                let name ← Build.read fun p => (p.symbol d).name
                Build.addMember table name d
            | none => visit site c ns

/-- Visits what `declare` introduces; `declare global` declares in the scope all
files share. -/
def visitAmbient (site : Site) (n : NodeId) (s : ScopeId) : Bind Unit := do
  let inner := { site with ambient := true }
  if src.hasToken n "global" then
    (src.namedChildren n).forM fun c => do
      if src.kind c == "statement_block" then
        Build.setScopeAt c Program.globalScope
        visitChildren src visit inner c Program.globalScope
  else visitChildren src visit inner n s

/-- A name that an import statement binds: its node, the export it looks for, and
what it is. -/
structure ImportedName where
  node : NodeId
  imported : String
  trait : Trait

/-- The names bound by one specifier list, default name or namespace name. -/
def clauseBindings (c : NodeId) : List ImportedName :=
  match src.kind c with
  | "identifier" => [⟨c, "default", .importBinding⟩]
  | "named_imports" =>
    (src.namedChildren c).filterMap fun spec =>
      if src.kind spec == "import_specifier" then
        (src.child? spec "name").map fun name =>
          ⟨(src.child? spec "alias").getD name, unquote (src.text name), .importBinding⟩
      else none
  | "namespace_import" =>
    (src.firstOfKind? c ["identifier"]).toList.map fun id => ⟨id, "*", .namespaceImport⟩
  | _ => []

/-- What one clause of an import statement binds, and the module it names if it
names one itself. -/
def importClause (clause : NodeId) : Option String × List ImportedName :=
  match src.kind clause with
  | "import_clause" => (none, (src.namedChildren clause).flatMap (clauseBindings src))
  | "import_require_clause" =>
    match src.firstOfKind? clause ["identifier"] with
    | some id =>
      ((src.child? clause "source").map fun s => unquote (src.text s),
        [⟨id, "*", .namespaceImport⟩])
    | none => (none, [])
  | _ => (none, [])

/-- Declares what an import statement binds. -/
def visitImport (site : Site) (n : NodeId) : Bind Unit := do
  let scope ← Build.read fun p => (p.moduleInfo site.module).scope
  let specifier := ((src.child? n "source").map fun s => unquote (src.text s)).getD ""
  let start : Import := { node := n, specifier := specifier, typeOnly := src.hasToken n "type" }
  let statement ← (src.namedChildren n).foldlM (fun (imp : Import) clause => do
      let (named?, bindings) := importClause src clause
      let imp := { imp with specifier := named?.getD imp.specifier }
      let syms ← bindings.mapM fun b =>
        declareImport src site scope b.node (Traits.of [b.trait]) imp.specifier b.imported
      return { imp with bindings := imp.bindings ++ syms }) start
  Build.updateModule site.module fun m => { m with imports := m.imports ++ [statement] }

/-- Exports a symbol of the module being visited. -/
def export_ (site : Site) (name : String) (sym : SymbolId) : Bind Unit :=
  Build.updateModule site.module fun m => m.addExport name sym

/-- The name under which an export statement exports a symbol. -/
def exportedName (n : NodeId) (name : String) : String :=
  if src.hasToken n "default" then "default" else name

/-- Exports symbols that an export statement declares. -/
def exportAll (site : Site) (n : NodeId) (syms : List SymbolId) : Bind Unit :=
  syms.forM fun sym => do
    let name ← Build.read fun p => (p.symbol sym).name
    export_ site (exportedName src n name) sym

/-- Exports what an exported declaration introduces. -/
def exportDeclaration (site : Site) (n decl : NodeId) (s : ScopeId) : Bind Unit := do
  let found ← collectDeclared visit site decl s
  let cls? ← Build.read fun p => p.classAt[decl]?
  exportAll src site n
    (if found.isEmpty && src.hasToken n "default" then cls?.toList else found)

/-- Exports the value of an expression as `default`. A name becomes an alias of
what it denotes. -/
def exportValue (site : Site) (value : NodeId) (s : ScopeId) : Bind Unit := do
  visit site value s
  let cls? ← Build.read fun p => p.classAt[value]?
  let sym ←
    if src.kind value == "identifier" then
      Build.newSymbol
        { name := "default", traits := Traits.of [.exportAlias], file := site.file,
          importedName := src.text value, localScope := some s }
    else
      match cls? with
      | some cls => pure cls
      | none =>
        Build.newSymbol
          { name := "default", traits := Traits.of [.variableDecl], file := site.file }
  Build.updateSymbol sym fun x => if x.decls.isEmpty then { x with decls := [value] } else x
  export_ site "default" sym

/-- Exports one specifier of an export clause, of this module or of another. -/
def exportSpecifier (site : Site) (source : String) (s : ScopeId) (spec : NodeId) :
    Bind Unit := do
  match src.child? spec "name" with
  | none => pure ()
  | some name =>
    let decl := (src.child? spec "alias").getD name
    let exported := unquote (src.text decl)
    let sym ← Build.newSymbol
      { name := exported, traits := (Traits.of [.exportAlias]).insertIf site.ambient .ambient,
        decls := [decl], file := site.file, importedName := unquote (src.text name),
        specifier := source, localScope := if source == "" then some s else none }
    if decl != name || source != "" then Build.setDeclared decl sym
    else modifyThe Program fun p => p.markSpecifier name
    export_ site exported sym

/-- Exports another module as one name. -/
def exportNamespace (site : Site) (source : String) (n : NodeId) : Bind Unit := do
  match src.firstOfKind? n ["identifier", "string"] with
  | none => pure ()
  | some id =>
    if source != "" then
      let name := unquote (src.text id)
      let sym ← Build.newSymbol
        { name := name, traits := Traits.of [.exportAlias, .namespaceImport], decls := [id],
          file := site.file, specifier := source, importedName := "*" }
      Build.setDeclared id sym
      export_ site name sym

/-- Visits an export statement: a declaration, a value, a clause of specifiers,
or another module. -/
def visitExport (site : Site) (n : NodeId) (s : ScopeId) : Bind Unit := do
  match src.child? n "declaration", src.child? n "value" with
  | some decl, _ => exportDeclaration src visit site n decl s
  | none, some value => exportValue src visit site value s
  | none, none =>
    let source := ((src.child? n "source").map fun x => unquote (src.text x)).getD ""
    (src.namedChildren n).forM fun c => do
      match src.kind c with
      | "export_clause" =>
        ((src.namedChildren c).filter fun spec => src.kind spec == "export_specifier").forM
          (exportSpecifier src site source s)
      | "namespace_export" => exportNamespace src site source c
      | _ => pure ()
    if source != "" && (src.firstOfKind? n ["export_clause", "namespace_export"]).isNone
        && src.hasToken n "*" then
      Build.updateModule site.module fun m => { m with stars := m.stars ++ [source] }
    if source == "" && (src.firstOfKind? n ["export_clause"]).isNone then
      visitChildren src visit site n s

/-- Visits a variable statement. -/
def visitVariables (site : Site) (n : NodeId) (s : ScopeId) : Bind Unit := do
  let traits := (Traits.of [.variableDecl]).insertIf (!src.hasToken n "var") .blockScoped
  (src.namedChildren n).forM fun d => do
    if src.kind d == "variable_declarator" then
      let _ ← declarePattern? src visit site s traits (src.child? d "name")
      visitField src visit site d "type" s
      visitField src visit site d "value" s
    else visit site d s

/-- Visits a loop. -/
def visitLoop (site : Site) (n : NodeId) (s : ScopeId) : Bind Unit := do
  let ls ← openScope .block s n
  let kind? := if src.kind n == "for_in_statement" then src.child? n "kind" else none
  match kind? with
  | some kind =>
    let traits := (Traits.of [.variableDecl]).insertIf (src.kind kind != "var") .blockScoped
    let left := src.child? n "left"
    let _ ← declarePattern? src visit site ls traits left
    ((src.children n).filter fun c => src.named c && some c != left).forM fun c => visit site c ls
  | none => visitChildren src visit site n ls

/-- Visits an index signature or mapped type. -/
def visitIndexSignature (site : Site) (n : NodeId) (s : ScopeId) : Bind Unit := do
  let is ←
    match src.firstOfKind? n ["mapped_type_clause"] with
    | some clause =>
      let is ← openScope .block s n
      let _ ← declare? src site is (src.child? clause "name") (Traits.of [.typeParameter])
      pure is
    | none => pure s
  (src.namedChildren n).forM fun c => do
    if src.kind c == "mapped_type_clause" then
      visitField src visit site c "type" is
      visitField src visit site c "alias" is
    else visit site c is

/-- Declares the shape of an object type. -/
def visitObjectType (site : Site) (n : NodeId) (s : ScopeId) : Bind Unit := do
  let shape ← Build.newSymbol
    { name := Symbol.typeLiteralName, traits := (Traits.of [.shape]).insertIf site.ambient .ambient,
      decls := [n], file := site.file }
  let _ ← Build.ensureMembers shape
  modifyThe Program fun p => p.markShape n shape
  visitShapeBody src visit site n shape s

/-- The rule for a node of any kind. -/
def visitNode (site : Site) (n : NodeId) (s : ScopeId) : Bind Unit := do
  match src.kind n with
  | "import_statement" => visitImport src site n
  | "export_statement" => visitExport src visit site n s
  | "ambient_declaration" => visitAmbient src visit site n s
  | "function_declaration" | "generator_function_declaration" | "function_signature" =>
    let _ ← declare? src site s (src.child? n "name") (Traits.of [.functionDecl])
    let _ ← visitFunction src visit site n s
  | "function" | "function_expression" | "generator_function" | "arrow_function" =>
    let fs ← visitFunction src visit site n s
    let _ ← declare? src site fs (src.child? n "name") (Traits.of [.functionDecl])
  | "class_declaration" | "abstract_class_declaration" | "class" => visitClass src visit site n s
  | "interface_declaration" => visitInterface src visit site n s
  | "type_alias_declaration" =>
    let _ ← declare? src site s (src.child? n "name") (Traits.of [.aliasDecl])
    let ts ← openScope .block s n
    visitField src visit site n "type_parameters" ts
    visitField src visit site n "value" ts
  | "enum_declaration" => visitEnum src visit site n s
  | "lexical_declaration" | "variable_declaration" => visitVariables src visit site n s
  | "statement_block" | "switch_body" =>
    let bs ← openScope .block s n
    visitChildren src visit site n bs
  | "class_static_block" =>
    let bs ← openScope .function s n
    visitChildren src visit site n bs
  | "for_statement" | "for_in_statement" => visitLoop src visit site n s
  | "catch_clause" =>
    let cs ← openScope .block s n
    let _ ← declarePattern? src visit site cs (Traits.of [.variableDecl, .blockScoped])
      (src.child? n "parameter")
    visitField src visit site n "type" cs
    visitField src visit site n "body" cs
  | "module" | "internal_module" => visitNamespace src visit site n s
  | "object_type" => visitObjectType src visit site n s
  | "type_parameters" =>
    ((src.namedChildren n).filter fun tp => src.kind tp == "type_parameter").forM fun tp => do
      let _ ← declare? src site s (src.child? tp "name") (Traits.of [.typeParameter])
      visitField src visit site tp "constraint" s
      visitField src visit site tp "value" s
  | "function_type" | "constructor_type" | "call_signature" | "construct_signature"
  | "method_definition" =>
    let _ ← visitFunction src visit site n s
  | "index_signature" => visitIndexSignature src visit site n s
  | "infer_type" =>
    let _ ← declare? src site s (src.firstOfKind? n ["type_identifier"])
      (Traits.of [.typeParameter])
    visitChildren src visit site n s
  | _ => visitChildren src visit site n s

/-- Visits a node and what is below it, at most this many levels deep. -/
def visitWithin : Nat → Visit
  | 0 => fun _ _ _ => pure ()
  | fuel + 1 => visitNode src (visitWithin fuel)

/-- Declares everything in a file. -/
def bindFile (f : FileId) : Build Unit := do
  let scope ← Build.read fun p => (p.moduleOf f).scope
  let site : Site :=
    { module := ⟨f.idx⟩, file := f, ambient := isDeclarationPath (src.file f).path }
  let visit := visitWithin src (src.nodes.size + 1)
  let _ ← (visitChildren src visit site (src.file f).root scope).run []

end Binding
end Moniker
