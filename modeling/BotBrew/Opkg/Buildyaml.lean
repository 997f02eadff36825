import BotBrew.Opkg.Package

/-! The control file that `opkg-buildyaml` writes. -/

set_option autoImplicit false

namespace BotBrew.Opkg

open Text

/-- A YAML mapping with string values, in one of its iteration orders. -/
abbrev Metadata := List (Text × Text)

/-- `meta['Maintainer'] = os.environ['OPKG_MAINTAINER']`, where that is set -/
def setMaintainer (OPKG_MAINTAINER : Option Text) (metadata : Metadata) : Metadata :=
  match OPKG_MAINTAINER with
  | some maintainer =>
      ("Maintainer".toList, maintainer) ::
        metadata.filter fun field => field.1 ≠ "Maintainer".toList
  | none => metadata

/-- `v.replace(u'\r',u'').rstrip('\n')` -/
def cleaned (value : Text) : Text := (value.filter (· ≠ '\r')).rdropWhile (· == '\n')

/-- `.replace(u'\n',u'\n ')` -/
def folded (value : Text) : Text :=
  value.flatMap fun char => if char = '\n' then ['\n', ' '] else [char]

def controlField (field : Text × Text) : Text :=
  field.1 ++ ": ".toList ++ folded (cleaned field.2)

/-- The content of `CONTROL/control` for the mapping that is left. -/
def controlText (fields : Metadata) : Text :=
  ['\n'].intercalate (fields.map controlField) ++ ['\n']

/-- A mapping of strings, from which `Data` has been popped. -/
structure Metadata.Valid (metadata : Metadata) : Prop where
  keys : ∀ field ∈ metadata,
    field.1 ≠ [] ∧ ∀ char ∈ field.1, char.isAlphanum || char == '-'
  distinct : (metadata.map fun field => lower field.1).Nodup
  no_size : ∀ field ∈ metadata, lower field.1 ≠ "size".toList

end BotBrew.Opkg
