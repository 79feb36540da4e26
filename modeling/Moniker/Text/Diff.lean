/-
# Line diffs

Source: `testutil.Diff`, `diffRec`, `Quote`.

A diff of two texts marks removed lines with `-`, added lines with `+` and common
lines with a blank.  It splits both texts around the longest run of lines they
share, the first of them where there are several, and goes on with what stands
before and after it.
-/

import Moniker.Text.Bytes
import Moniker.Text.CommonRun

namespace Moniker
namespace Text

/-- The marked lines of a diff. -/
def diffLines (old new : List String) : List String :=
  let run := longestCommon old new
  if h : run.length = 0 then old.map ("-" ++ ·) ++ new.map ("+" ++ ·)
  else
    have := (isShared_longestCommon old new).left_le
    have : (longestCommon old new).length ≠ 0 := h
    diffLines (old.take run.left) (new.take run.right)
    ++ ((old.drop run.left).take run.length).map (" " ++ ·)
    ++ diffLines (old.drop (run.left + run.length)) (new.drop (run.right + run.length))
termination_by old.length
decreasing_by all_goals
  simp only [List.length_take, List.length_drop]
  omega

/-- The diff of two texts. -/
def diff (old new : String) : String := join "\n" (diffLines (split '\n' old) (split '\n' new))

/-- Shows named texts one after the other, in the order of their names. -/
def showFiles (files : List (String × String)) : String :=
  let sorted := files.mergeSort fun a b => lexLe a.1 b.1
  String.join (sorted.map fun f => "== " ++ f.1 ++ " ==\n" ++ f.2 ++ "\n")

end Text
end Moniker
