/-
# Slash paths

Source: `paths.IsWithinRoot`, `paths.JoinRoot`, `manifest.nested`.

A path is a text whose segments are divided by slashes.  `clean` is its normal
form: no empty segment, no `.`, and `..` only where nothing is left to go up
from.

| path | clean |
| --- | --- |
| empty | `.` |
| `a//b/./c/` | `a/b/c` |
| `a/../../b` | `../b` |
| `/../a` | `/a` |

A project path is written relative to the project root.  It is `within` the root
when its clean form neither goes up nor starts at `/`.
-/

import Moniker.Text.Bytes

namespace Moniker
namespace Path

/-- The segments between slashes, empty ones included. -/
def segments (p : String) : List String := Text.split '/' p

/-- Does the path start at the top of the file system? -/
def isAbsolute (p : String) : Bool :=
  match p.toList with
  | '/' :: _ => true
  | _ => false

/-- Takes one more segment into a clean path kept in reverse. At the top of the
file system `..` stays there; elsewhere it undoes a segment or is kept. -/
def push (rooted : Bool) (done : List String) (segment : String) : List String :=
  if segment = "" ∨ segment = "." then done
  else if segment = ".." then
    match done with
    | [] => if rooted then [] else [".."]
    | last :: rest => if last = ".." then ".." :: done else rest
  else segment :: done

/-- The segments of the clean form of a path. -/
def cleanSegments (rooted : Bool) (segs : List String) : List String :=
  (segs.foldl (push rooted) []).reverse

/-- Writes clean segments as a path. -/
def render (rooted : Bool) (segs : List String) : String :=
  if rooted then "/" ++ Text.join "/" segs
  else if segs.isEmpty then "."
  else Text.join "/" segs

/-- The normal form of a path. -/
def clean (p : String) : String :=
  render (isAbsolute p) (cleanSegments (isAbsolute p) (segments p))

/-- Joins paths with slashes and cleans the result; empty paths do not count,
and nothing joined to nothing is empty. -/
def join (parts : List String) : String :=
  let parts := parts.filter (· ≠ "")
  if parts.isEmpty then "" else clean (Text.join "/" parts)

/-- The segments of a path without the last one, as a clean path. -/
def dir (p : String) : String :=
  match (segments p).dropLast with
  | [] => "."
  | [""] => "/"
  | segs => clean (Text.join "/" segs)

/-- The last segment of a path, slashes at its end apart. -/
def base (p : String) : String :=
  if p = "" then "."
  else
    match (segments p).reverse.dropWhile (· = "") with
    | [] => "/"
    | last :: _ => last

/-- The extension of a path: the part of its last segment from its last dot on. -/
def extension (p : String) : String :=
  let last := ((Text.splitChars '/' p.toList).getLast?).getD []
  if last.contains '.' then
    String.ofList ('.' :: (last.reverse.takeWhile (· ≠ '.')).reverse)
  else ""

/-- Removes the common start of two lists. -/
def dropCommon : List String → List String → List String × List String
  | a :: as, b :: bs => if a = b then dropCommon as bs else (a :: as, b :: bs)
  | as, bs => (as, bs)

/-- The clean segments of a path, `.` for the path that has none. -/
def writtenSegments (p : String) : List String :=
  let segs := cleanSegments (isAbsolute p) (segments p)
  if segs.isEmpty && !isAbsolute p then ["."] else segs

/-- The path that leads from `root` to `target`, if both start at the top of the
file system or neither does and `root` does not begin above `target`. -/
def relative? (root target : String) : Option String :=
  if clean target = clean root then some "."
  else if isAbsolute root != isAbsolute target then none
  else
    let from_ := cleanSegments (isAbsolute root) (segments root)
    let (up, down) := dropCommon from_ (writtenSegments target)
    if up.head? = some ".." then none
    else some (Text.join "/" (up.map (fun _ => "..") ++ down))

/-- Does a path relative to a root stay below it? -/
def within (rel : String) : Bool :=
  let p := clean rel
  p ≠ ".." && !Text.startsIn p "../" && !isAbsolute p

/-- A path relative to a root, written from where the root is written. A
backslash counts as a slash. -/
def joinRoot (root rel : String) : String :=
  let slashed := String.ofList (rel.toList.map fun c => if c = '\\' then '/' else c)
  join (root :: segments slashed)

/-- Is `p` the directory `root` itself or a path below it? Both are clean. -/
def nested (p root : String) : Bool :=
  root = "." || p = root || Text.startsIn p (root ++ "/")

end Path
end Moniker
