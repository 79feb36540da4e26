/-
# Following a path on disk

Source: `paths.CanonicalizePath`.

A path is followed name by name from where it starts.  After each name the file system
tells what is there, links not followed:

| there is | what happens |
| --- | --- |
| a directory | the rest of the path goes on from it |
| another file | the path has to end there, or it is no path to anything |
| a link | its target is followed instead, from the directory it is in or from the top |
| nothing | the path is missing |
| no telling | the path is refused, for the reason given |

Steps up are undone as text, where there is a name before the last one to go back to;
otherwise they are kept.  After 255 links it is given up.
-/

import Moniker.Path

namespace Moniker

/-- What is at a path, links not followed. -/
inductive Stat where
  | missing
  | directory
  | file
  | link (target : String)
  | refused (why : String)
deriving DecidableEq, Inhabited

/-- A file system, by what it tells about paths. -/
structure FileSystem where
  stat : String → Stat
deriving Inhabited

namespace FileSystem

/-- Why no file can have the path, whatever there is: it ends early, or it is longer than the
system takes, as a whole or in one of its names. -/
def unnameable? (p : String) : Option String :=
  if p.toList.contains '\x00' then some "invalid argument"
  else if 4096 ≤ p.utf8ByteSize || (Path.segments p).any fun s => 255 < s.utf8ByteSize then
    some "file name too long"
  else none

/-- The file system with these files, at paths that files can have. -/
def ofStat (stat : String → Stat) : FileSystem where
  stat p :=
    match unnameable? p with
    | some why => .refused why
    | none => stat p

/-- A file system with nothing in it. -/
def empty : FileSystem := ofStat fun _ => .missing

end FileSystem

namespace Path

/-- Why a path leads to nothing. -/
inductive FollowError where
  | missing
  | failed (why : String)
deriving DecidableEq, Inhabited

/-- The path gone so far, given by its names, the last one first. -/
def gone (rooted : Bool) (done : List String) : String :=
  (if rooted then "/" else "") ++ Text.join "/" done.reverse

/-- One step up: the last name is undone if there is another before it. -/
def back (done : List String) : List String :=
  match done with
  | last :: before :: rest => if last = ".." then ".." :: done else before :: rest
  | _ => ".." :: done

/-- How far a path could be followed: to its end, to where it fails, or to a link, with the
names before the link and the rest of the path behind it. -/
inductive Progress where
  | arrived (done : List String)
  | stopped (e : FollowError)
  | linked (target : String) (done rest : List String)
deriving DecidableEq, Inhabited

/-- Goes on along segments up to the first link. -/
def goOn (fs : FileSystem) (rooted : Bool) : List String → List String → Progress
  | done, [] => .arrived done
  | done, segment :: rest =>
    if segment = "" ∨ segment = "." then goOn fs rooted done rest
    else if segment = ".." then goOn fs rooted (back done) rest
    else
      let path := gone rooted (segment :: done)
      match fs.stat path with
      | .missing => .stopped .missing
      | .refused why => .stopped (.failed ("lstat " ++ path ++ ": " ++ why))
      | .link target => .linked target done rest
      | .file =>
        if rest.isEmpty then .arrived (segment :: done) else .stopped (.failed "not a directory")
      | .directory => goOn fs rooted (segment :: done) rest

/-- Follows a path over at most so many links. -/
def followWithin (fs : FileSystem) : Nat → Bool → List String → List String →
    Except FollowError String
  | links, rooted, done, segs =>
    match goOn fs rooted done segs with
    | .arrived done => .ok (clean (gone rooted done))
    | .stopped e => .error e
    | .linked target done rest =>
      match links with
      | 0 => .error (.failed "EvalSymlinks: too many links")
      | links + 1 =>
        if isAbsolute target then followWithin fs links true [] (segments target ++ rest)
        else followWithin fs links rooted done (segments target ++ rest)

end Path

/-- The path that a path leads to, no part of it a link. -/
def FileSystem.follow (fs : FileSystem) (p : String) : Except Path.FollowError String :=
  Path.followWithin fs 255 (Path.isAbsolute p) [] (Path.segments p)

/-- What is in the way of following a path, if it is not just missing. -/
def FileSystem.obstacle? (fs : FileSystem) (p : String) : Option String :=
  match fs.follow p with
  | .error (.failed why) => some why
  | _ => none

end Moniker
