/-
# The command line

The first word that is neither a flag nor a flag's value names a command, and
within some commands the next one names a command of theirs.

A command knows its own flags and those its ancestors share.  To find a command
its flags must be told from arguments before it is known which flags there are,
so a word after an unknown flag counts as the value of that flag.
-/

import Moniker.Command.Flags
import Moniker.Text.Case

namespace Moniker

/-- The commands there are. -/
inductive Command where
  | root
  | analyze
  | bundle
  | config
  | configShow
  | configValidate
  | configEnv
  | history
  | historyList
  | historyShow
  | historyFind
  | historyPrune
  | init
  | mangle
  | rename
  | run
  | version
  | help
  | completion
deriving DecidableEq, Inhabited

/-- How many arguments a command takes. -/
inductive Arity where
  | any
  | none
  | exactly (n : Nat)
  /-- None if the flag is given something, else this many. -/
  | unless (flag : String) (n : Nat)
deriving DecidableEq, Inhabited

namespace Command

/-- All commands but the root, in the order in which they are suggested. -/
def all : List Command :=
  [analyze, bundle, config, configShow, configValidate, configEnv, history, historyList,
    historyShow, historyFind, historyPrune, init, mangle, rename, run, version, help, completion]

/-- The word that names a command. -/
def word : Command → String
  | root => "tsmangle"
  | analyze => "analyze"
  | bundle => "bundle"
  | config => "config"
  | configShow => "show"
  | configValidate => "validate"
  | configEnv => "env"
  | history => "history"
  | historyList => "list"
  | historyShow => "show"
  | historyFind => "find"
  | historyPrune => "prune"
  | init => "init"
  | mangle => "mangle"
  | rename => "rename"
  | run => "run"
  | version => "version"
  | help => "help"
  | completion => "completion"

/-- The command that a command is one of. -/
def parent? : Command → Option Command
  | root => none
  | configShow => some config
  | configValidate => some config
  | configEnv => some config
  | historyList => some history
  | historyShow => some history
  | historyFind => some history
  | historyPrune => some history
  | _ => some root

/-- The commands of a command. -/
def children (c : Command) : List Command := all.filter fun k => k.parent? == some c

/-- Does the command do something itself? -/
def isRunnable : Command → Bool
  | root => false
  | config => false
  | history => false
  | completion => false
  | _ => true

/-- Can the command be suggested? -/
def isOffered (c : Command) : Bool := c != help

/-- The words that lead to a command. -/
def title (c : Command) : String :=
  match c.parent? with
  | none => c.word
  | some root => root.word ++ " " ++ c.word
  | some k => root.word ++ " " ++ k.word ++ " " ++ c.word

/-- How many arguments the command takes. -/
def arity : Command → Arity
  | bundle => .exactly 1
  | rename => .unless "from" 3
  | configShow => .none
  | configValidate => .none
  | configEnv => .none
  | historyList => .none
  | historyShow => .exactly 1
  | historyFind => .exactly 1
  | historyPrune => .none
  | init => .none
  | version => .none
  | _ => .any

/-- The flag for a format. -/
def formatFlag : Flag := { name := "format" }

/-- The flags a command shares with those below it. -/
def sharedFlags : Command → List Flag
  | root =>
    [{ name := "root" }, { name := "verbose", letter := some 'v', kind := .count },
      { name := "quiet", letter := some 'q', kind := .truth }]
  | config => [formatFlag]
  | history => [formatFlag]
  | _ => []

/-- The flags of a command alone. -/
def ownFlags : Command → List Flag
  | analyze => [formatFlag, { name := "only" }, { name := "public", kind := .texts }]
  | bundle =>
    [formatFlag, { name := "strict", kind := .truth }, { name := "out", letter := some 'o' }]
  | configShow => [{ name := "diff", kind := .truth }]
  | historyList =>
    [{ name := "kind" }, { name := "limit", letter := some 'n', kind := .whole }]
  | historyPrune => [{ name := "keep", kind := .whole }]
  | init => [{ name := "force", letter := some 'f', kind := .truth }, formatFlag]
  | mangle =>
    [formatFlag, { name := "dry-run", kind := .truth }, { name := "reserved", kind := .texts },
      { name := "external", kind := .texts }, { name := "public", kind := .texts },
      { name := "effect-roots", kind := .truth },
      { name := "private-members-internal", kind := .truth },
      { name := "hard-private", kind := .truth }]
  | rename => [formatFlag, { name := "dry-run", kind := .truth }, { name := "from" }]
  | run => [formatFlag, { name := "dry-run", kind := .truth }]
  | version => [formatFlag]
  | _ => []

/-- The flags a command knows. -/
def flags (c : Command) : List Flag :=
  let above := match c.parent? with
    | none => []
    | some root => root.sharedFlags
    | some k => k.sharedFlags ++ root.sharedFlags
  c.ownFlags ++ c.sharedFlags ++ above

/-- The flags that are added when a command runs. -/
def addedFlags (c : Command) : List Flag :=
  { name := "help", letter := some 'h', kind := .truth }
    :: if c = root then [{ name := "version", kind := .truth }] else []

/-! ## Finding the command -/

/-- Does the word after this one count as its value? -/
def takesNext (flags : List Flag) (word : String) : Bool :=
  let needs (f? : Option Flag) : Bool := (f?.bind Flag.bare?).isNone
  match word.toList with
  | '-' :: '-' :: name =>
    !name.contains '=' && needs (flagNamed? flags (String.ofList name))
  | ['-', c] => c ≠ '=' && c.toNat < 0x80 && needs (flagLettered? flags c)
  | _ => false

/-- The words that are neither flags nor values of flags. -/
def plainWords (flags : List Flag) : List String → List String
  | [] => []
  | word :: rest =>
    if word = "--" then []
    else if takesNext flags word then
      match rest with
      | _ :: next :: more => plainWords flags (next :: more)
      | _ => []
    else if word ≠ "" && !Text.startsIn word "-" then word :: plainWords flags rest
    else plainWords flags rest

/-- The words without the first plain one that is `named`. -/
def without (flags : List Flag) (named : String) : List String → List String
  | [] => []
  | word :: rest =>
    if word = "--" then word :: rest
    else if takesNext flags word then
      match rest with
      | value :: more => word :: value :: without flags named more
      | [] => [word]
    else if word = named then rest
    else word :: without flags named rest

/-- Goes from a command to the one that the words name, at most `fuel` steps down,
and returns the words left. -/
def descend : Nat → Command → List String → Command × List String
  | 0, c, words => (c, words)
  | fuel + 1, c, words =>
    match (plainWords c.flags words).head? with
    | none => (c, words)
    | some name =>
      match c.children.find? fun k => k.word == name with
      | none => (c, words)
      | some k => descend fuel k (without c.flags name words)

/-- The command that the words name, and the words left. -/
def locate (words : List String) : Command × List String := descend all.length root words

/-! ## Suggestions -/

/-- One row of a table of edit distances from the row before it. -/
def distanceRow (b : UInt8) : List UInt8 → List Nat → Nat → List Nat
  | a :: as, diagonal :: above :: more, left =>
    let d := if a = b then diagonal else 1 + min (min left above) diagonal
    d :: distanceRow b as (above :: more) d
  | _, _, _ => []

/-- How many bytes must be added, removed or replaced to get from one text to the
other. -/
def distance (as bs : List UInt8) : Nat :=
  let table := bs.foldl (fun row b =>
    let first := row.headD 0 + 1
    first :: distanceRow b as row first) (List.range (as.length + 1))
  table.getLastD 0

/-- How far a suggestion may be from what was written. -/
def nearby : Nat := 2

/-- Is the command like a word, in any case? -/
def resembles (c : Command) (written : String) : Bool :=
  let w := Text.lower written
  distance (Text.encode w).toList (Text.encode c.word).toList ≤ nearby || Text.startsIn c.word w

/-- The commands that a word may have meant. -/
def suggestions (written : String) : List String :=
  ((root.children.filter fun c => c.isOffered && c.resembles written)).map word

end Command

/-! ## Reading -/

/-- Why a command line cannot be run. -/
inductive LineError where
  | flags (e : FlagError)
  | unknownCommand (written title : String) (suggestions : List String)
  | argumentCount (expected received : Nat)
deriving DecidableEq, Inhabited

namespace LineError

/-- The text of an error. -/
def message : LineError → String
  | flags e => e.message
  | unknownCommand written title suggestions =>
    let similar := if suggestions.isEmpty then ""
      else "\n\nDid you mean this?\n" ++ String.join (suggestions.map fun s => "\t" ++ s ++ "\n")
    "unknown command " ++ Text.quote written ++ " for " ++ Text.quote title ++ similar
  | argumentCount expected received =>
    "accepts " ++ toString expected ++ " arg(s), received " ++ toString received

/-- What a user is shown. -/
def report (e : LineError) : String :=
  let tick := String.ofList [Char.ofNat 0x27]
  "Error: " ++ e.message ++ "\nRun " ++ tick ++ "tsmangle --help" ++ tick ++ " for usage.\n"

end LineError

/-- What a command line asks for. -/
inductive Wish where
  | help (c : Command)
  | version
  | perform (c : Command) (flags : FlagValues) (arguments : List String)
deriving DecidableEq, Inhabited

namespace Command

/-- Checks the number of arguments. -/
def checkArguments (c : Command) (flags : FlagValues) (arguments : List String) :
    Except LineError Unit :=
  let nothing := match arguments with
    | [] => .ok ()
    | word :: _ => .error (.unknownCommand word c.title [])
  let exactly (n : Nat) :=
    if arguments.length = n then .ok () else .error (.argumentCount n arguments.length)
  match c.arity with
  | .any => .ok ()
  | .none => nothing
  | .exactly n => exactly n
  | .unless flag n => if flags.text flag "" = "" then exactly n else nothing

/-- Reads a command line. -/
def read (words : List String) : Except LineError Wish :=
  let (c, left) := locate words
  match c, plainWords c.flags left with
  | .root, word :: _ => .error (.unknownCommand word root.title (suggestions word))
  | _, _ =>
    match readFlags (c.flags ++ c.addedFlags) left with
    | .error e => .error (.flags e)
    | .ok line =>
      if line.flags.isSet "help" then .ok (.help c)
      else if c = root && line.flags.isSet "version" then .ok .version
      else if !c.isRunnable || c = help then .ok (.help c)
      else
        match c.checkArguments line.flags line.arguments with
        | .error e => .error e
        | .ok () => .ok (.perform c line.flags line.arguments)

end Command
end Moniker
