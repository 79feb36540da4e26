/-
# Reports in a format

Source: `FormatResponse`, `formatJSON`, `formatYAML`, `formatTOML`, `genericValue`,
`numbers`.

A report is written for people or as JSON, YAML or TOML.  A report without a form
for people is written as JSON.  TOML documents are tables, so what is not a record
is put under `items`.
-/

import Moniker.Data.Toml.Writer
import Moniker.Data.Yaml
import Moniker.Report.Prose
import Moniker.Report.Record

namespace Moniker

namespace Value

/-- A number as the shortest text for it reads: whole numbers of a machine word are
whole. -/
def settled (x : Float) : Value :=
  let text := (Decimal.plain x).toList
  let digits := if text.head? = some '-' then text.tail else text
  if digits.all Char.isDigit && Numeral.fits (Decimal.truncate x) then .int (Decimal.truncate x)
  else .num x

mutual

/-- A value with whole numbers where numbers are whole. -/
def settle : Value → Value
  | .num x => settled x
  | .list items => .list (settleItems items)
  | .record fields => .record (settleFields fields)
  | v => v

/-- The items of a list, settled. -/
def settleItems : List Value → List Value
  | [] => []
  | v :: rest => settle v :: settleItems rest

/-- The fields of a record, settled. -/
def settleFields : List (String × Value) → List (String × Value)
  | [] => []
  | (k, v) :: rest => (k, settle v) :: settleFields rest

end

end Value

namespace Report

/-- A report in a format. -/
def render (r : Report) (format : String) : Except Failure String :=
  match format with
  | "json" => .ok (Json.indented r.toValue)
  | "human" => .ok (r.prose?.getD (Json.indented r.toValue))
  | "yaml" => .ok (Prose.trimLines (Yaml.render r.toValue.settle))
  | "toml" =>
    match Toml.render? r.toValue.settle with
    | some text => .ok (Prose.trimLines text)
    | none => .error (.plain "failed to marshal TOML: toml: cannot encode array with nil element")
  | _ => .error (.plain ("unsupported format: " ++ format))

end Report
end Moniker
