/-
# Building a program

Source: `program.New`, `hasModuleSyntax`.

A program is built from parsed files in four passes over all of them: a module
and a scope for each file, the declarations, what identifiers denote, and the
links that need types.  Two files at one path are refused.
-/

import Moniker.Binding.Visit
import Moniker.Diagnostic
import Moniker.Program.References
import Moniker.Typing.Check

namespace Moniker

/-- A file to build a program from. -/
structure ParsedFile where
  path : String
  contents : ByteArray
  tree : Tree
deriving Inhabited

namespace Program

/-- Lays out the files, or names the path that occurs twice. -/
def layOut : List ParsedFile → Source → Except Failure Source
  | [], src => .ok src
  | f :: rest, src =>
    let path := Path.clean f.path
    if src.files.any fun g => g.path == path then
      .error (.plain ("duplicate file in program: " ++ path))
    else layOut rest (src.add path f.contents f.tree)

/-- Has the file an import or export statement at its top? -/
def hasModuleSyntax (src : Source) (root : NodeId) : Bool :=
  (src.children root).any fun c => src.isKind c ["import_statement", "export_statement"]

/-- Makes the module of a file. -/
def openModule (src : Source) (f : FileId) : Build Unit := do
  let file := src.file f
  let scope ← Build.newScope .ofModule (some globalScope) (some file.root)
  let symbol ← Build.newSymbol
    { name := file.path, traits := Traits.of [.moduleItself], file := f }
  Build.setScopeAt file.root scope
  modify fun p =>
    { p with
      modules := p.modules.push
        { name := file.path, file := f, scope := scope, symbol := symbol,
          isScript := !hasModuleSyntax src file.root }
      modulesByPath := p.modulesByPath.insert file.path ⟨f.idx⟩ }

/-- The passes that build a program over its files. -/
def passes (src : Source) : Build Unit := do
  let _ ← Build.newScope .global none none
  src.fileIds.forM (openModule src)
  src.fileIds.forM (Binding.bindFile src)
  src.fileIds.forM (References.linkFile src)
  src.fileIds.forM fun f => Typing.checkFile src f

/-- Builds a program over laid-out files. -/
def ofSource (src : Source) : Program := ((passes src).run { source := src }).2

/-- Builds a program from parsed files. -/
def build (files : List ParsedFile) : Except Failure Program :=
  (layOut files {}).map ofSource

end Program
end Moniker
