/-
# Tasks

Source: `runMangle`, `runRename`, `runBundle`, `runRun`, `runAnalyze`, `runHistoryList`.

What a command line asks for, with each flag turned into what it means.  A switch
that can override a setting is `none` where it was not given.
-/

import Moniker.Command.Line
import Moniker.Command.Session

namespace Moniker

/-- What mangling is told. -/
structure MangleTask where
  paths : List String := []
  dryRun : Bool := false
  reserved : List String := []
  externalModules : List String := []
  publicFiles : List String := []
  effectRoots : Option Bool := none
  privateMembersInternal : Option Bool := none
  hardPrivate : Option Bool := none
deriving DecidableEq, Inhabited

/-- What is to be renamed: the symbol at a place, or what a batch file says. -/
inductive RenameSource where
  | place (file offset name : String)
  | batch (path : String)
deriving DecidableEq, Inhabited

/-- Something to be done. -/
inductive Task where
  | analyze (paths publicFiles : List String) (only : String)
  | mangle (t : MangleTask)
  | rename (source : RenameSource) (dryRun : Bool)
  | bundle (entry out : String) (strict : Option Bool)
  | run (entries : List String) (dryRun : Bool)
  | init (force : Bool)
  | configShow (onlyChanged : Bool)
  | configValidate
  | configEnv
  | historyList (kind : String) (limit : Int)
  | historyShow (id : String)
  | historyFind (name : String)
  | historyPrune (keep : Option Int)
  | version
deriving DecidableEq, Inhabited

/-- A task, what all commands can be told, and the format of the report. -/
structure Assignment where
  common : CommonOptions := {}
  task : Task
  format : String := "human"
deriving DecidableEq, Inhabited

namespace Task

/-- The task of mangling. -/
def ofMangle (flags : FlagValues) (arguments : List String) : MangleTask :=
  { paths := arguments
    dryRun := flags.isSet "dry-run"
    reserved := flags.texts "reserved"
    externalModules := flags.texts "external"
    publicFiles := flags.texts "public"
    effectRoots := flags.truth? "effect-roots"
    privateMembersInternal := flags.truth? "private-members-internal"
    hardPrivate := flags.truth? "hard-private" }

/-- What a renaming starts from. -/
def ofRename (flags : FlagValues) (arguments : List String) : RenameSource :=
  match flags.text "from" "", arguments with
  | "", [file, offset, name] => .place file offset name
  | path, _ => .batch path

/-- The task of a command, if it has one. -/
def of? (c : Command) (flags : FlagValues) (arguments : List String) : Option Task :=
  let first := arguments.headD ""
  match c with
  | .analyze => some (.analyze arguments (flags.texts "public") (flags.text "only" ""))
  | .mangle => some (.mangle (ofMangle flags arguments))
  | .rename => some (.rename (ofRename flags arguments) (flags.isSet "dry-run"))
  | .bundle => some (.bundle first (flags.text "out" "") (flags.truth? "strict"))
  | .run => some (.run arguments (flags.isSet "dry-run"))
  | .init => some (.init (flags.isSet "force"))
  | .configShow => some (.configShow (flags.isSet "diff"))
  | .configValidate => some .configValidate
  | .configEnv => some .configEnv
  | .historyList =>
    some (.historyList (flags.text "kind" "") ((flags.whole? "limit").getD History.usualLimit))
  | .historyShow => some (.historyShow first)
  | .historyFind => some (.historyFind first)
  | .historyPrune => some (.historyPrune (flags.whole? "keep"))
  | .version => some .version
  | _ => none

end Task

/-- What all commands can be told. -/
def CommonOptions.ofFlags (flags : FlagValues) : CommonOptions :=
  { root := flags.text "root" ".", verbosity := (flags.whole? "verbose").getD 0,
    quiet := flags.isSet "quiet" }

/-- The assignment of a command, if it has one. -/
def Assignment.of? (c : Command) (flags : FlagValues) (arguments : List String) :
    Option Assignment :=
  (Task.of? c flags arguments).map fun t =>
    { common := .ofFlags flags, task := t, format := flags.text "format" "human" }

end Moniker
