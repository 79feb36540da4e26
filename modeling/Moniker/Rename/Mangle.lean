/-
# Mangling

Source: `pipeline.Mangle`, `pipeline.ComputeMangleDirectives`.

A mangling pass decides all new names first and then writes them, so that no
decision sees a file half renamed.
-/

import Moniker.Naming.Allocation
import Moniker.Rename.Apply

namespace Moniker

/-- The outcome of a mangling pass. -/
structure MangleOutcome where
  plan : ManglePlan
  renames : RenameResult
deriving Inhabited

namespace ManglePlan

/-- What a plan asks to be renamed. -/
def directives (plan : ManglePlan) : List Directive := plan.changed.map Renaming.toDirective

end ManglePlan

/-- Plans new names for files and writes them to the sources, with the occurrences
that the given locator finds. -/
def mangle (sources : String → Option ByteArray) (locate : Program → Locator)
    (files : List FileId) (opts : MangleOptions) : Build MangleOutcome := do
  let plan ← planMangle files opts
  let p ← get
  return { plan := plan, renames := Rename.run sources (locate p) plan.directives }

end Moniker
