/-
# Paths on the command line

Source: `paths.CanonicalizePath`, `paths.Resolve`.

A path given by a user is taken relative to the project root; an absolute one is
made relative to it, once both have been followed on disk.  Files to be written may
not be there yet: a path that is missing stands for itself.  Either way the path
must stay inside the root.
-/

import Moniker.Diagnostic
import Moniker.Path.Follow

namespace Moniker
namespace Path

/-- Where a path leads, or the path itself if it is missing. -/
def real (fs : FileSystem) (p : String) : Except Failure String :=
  match fs.follow p with
  | .ok q => .ok q
  | .error .missing => .ok p
  | .error (.failed why) => .error (.plain why)

/-- Makes a path relative to a root. -/
def canonicalize (p root : String) (fs : FileSystem := .empty) : Except Failure String := do
  let target ← real fs p
  let root ← real fs root
  match relative? root target with
  | some rel => .ok rel
  | none => .error (.plain ("Rel: can't make " ++ target ++ " relative to " ++ root))

/-- The failure for an argument that cannot be made relative to the root. -/
def unresolved (arg why : String) : Failure :=
  .coded { code := .invalidArgument, message := "cannot resolve " ++ arg, cause := some why }

/-- The clean path, relative to the root, that a path on the command line means. -/
def resolve (arg root : String) (fs : FileSystem := .empty) : Except Failure String := do
  let rel ←
    if isAbsolute arg then
      match canonicalize arg root fs with
      | .ok rel => .ok rel
      | .error e => .error (unresolved arg e.text)
    else .ok arg
  if within (clean rel) then .ok (clean rel)
  else .error (.of .invalidArgument (arg ++ " is outside the project root " ++ root))

end Path
end Moniker
