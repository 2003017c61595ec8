/-!
# LogSettings — how packing reports would be shown

The settings come from two texts of the environment, one that names an output format and one that is a filter
directive; each has a default.  The environment ends a text at the null character, so no text in it has one.  Nothing
is shown yet, so installing settings does nothing and succeeds.
-/
namespace TensorStorage

inductive LogFormat where
  | pretty
  | json
  | compact
deriving DecidableEq, Repr

namespace LogFormat

def name : LogFormat → String
  | pretty => "pretty"
  | json => "json"
  | compact => "compact"

/-- The format of this name in any mixture of cases, and `pretty` for any other text.  No letter beyond ASCII has a
lower case that occurs in the names. -/
def ofText (text : String) : LogFormat :=
  let lower := text.map Char.toLower
  if lower = "json" then json else if lower = "compact" then compact else pretty

end LogFormat

structure LogSettings where
  format : LogFormat
  filter : String
  ansi : Bool
  target : Bool
  file : Bool
deriving DecidableEq, Repr

namespace LogSettings

/-- True when the environment can hold a text. -/
def holdable (text : String) : Bool := text.toList.all (· ≠ '\x00')

/-- The settings that the environment asks for: the text of the format and the filter, where they are set; none if the
environment cannot hold one of them. -/
def ofEnvironment? (format? filter? : Option String) : Option LogSettings :=
  if format?.all holdable && filter?.all holdable then
    some {
      format := (format?.map LogFormat.ofText).getD .pretty
      filter := filter?.getD "fibra_sparse=info,warn"
      ansi := true
      target := true
      file := false }
  else none

/-- Puts settings into effect. -/
def install (_ : LogSettings) : Except String Unit := .ok ()

end LogSettings

end TensorStorage
