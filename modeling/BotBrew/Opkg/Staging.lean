import BotBrew.Opkg.Buildyaml
import BotBrew.Text.Format
import Mathlib.Logic.Function.Basic

/-! The staging directory of `opkg-buildyaml`: the `Data` mapping and the control file. -/

set_option autoImplicit false

namespace BotBrew.Opkg.Staging

open Text

/-- The names from the root directory down. -/
abbrev Path := List Text

inductive Node where
  | directory
  | file (content : Text) (executable : Bool)
  deriving DecidableEq

/-- The directories and regular files that can be reached without symbolic links. -/
abbrev World := Path → Option Node

def IsFile (world : World) (path : Path) : Prop :=
  ∃ content executable, world path = some (.file content executable)

/-- A part of a path between two separators. -/
inductive Component where
  | here
  | parent
  | name (name : Text)
  deriving DecidableEq

def component (word : Text) : Component :=
  if word = [] ∨ word = ".".toList then .here
  else if word = "..".toList then .parent
  else .name word

/-- The components of an absolute path. -/
def components (path : Text) : List Component := (path.splitOnP (· == '/')).map component

/-- `os.makedirs`: the missing directories are made from the top down until one cannot be. -/
def makedirs (world : World) (current : Path) : List Component → World
  | [] => world
  | .here :: rest => makedirs world current rest
  | .parent :: rest => makedirs world current.dropLast rest
  | .name name :: rest =>
      match world (current ++ [name]) with
      | none =>
          makedirs (Function.update world (current ++ [name]) (some .directory))
            (current ++ [name]) rest
      | some .directory => makedirs world (current ++ [name]) rest
      | some (.file _ _) => world

def resolve (world : World) (current : Path) : List Component → Option Path
  | [] => some current
  | .here :: rest => resolve world current rest
  | .parent :: rest => resolve world current.dropLast rest
  | .name name :: rest =>
      match world (current ++ [name]) with
      | some .directory => resolve world (current ++ [name]) rest
      | _ => none

/-- The file that `open` with the mode `w+` opens, where it does not raise. -/
def opened (world : World) (parts : List Component) : Option Path :=
  match parts.getLast? with
  | some (.name name) =>
      match resolve world [] parts.dropLast with
      | some current =>
          if world (current ++ [name]) = some .directory then none else some (current ++ [name])
      | none => none
  | _ => none

/-- A file that exists keeps its mode. -/
def mode : Option Node → Bool
  | some (.file _ executable) => executable
  | _ => false

def write (world : World) (path : Path) (content : Text) : World :=
  Function.update world path (some (.file content (mode (world path))))

/-- The tree, the files that were opened for writing, and whether there was no exception. -/
structure Outcome where
  world : World
  written : List Path
  ok : Bool

/-- The fresh directory of `tempfile.mkdtemp`, below the directories that lead to it. -/
structure Temporary where
  world : World
  package : Path
  nonempty : package ≠ []
  names : ∀ name ∈ package, component name = .name name ∧ '/' ∉ name
  above : ∀ path, path <+: package → world path = some .directory
  fresh : ∀ path, package <+: path → path ≠ package → world path = none

def pathText (path : Path) : Text := path.flatMap ('/' :: ·)

/-- `os.path.join(package,k.lstrip(os.sep))` -/
def template (package : Path) (key : Text) : Text :=
  pathText package ++ '/' :: key.dropWhile (· == '/')

/-- The path that a key stands for, by its bytes. A key that is no ASCII is joined to no other
`str` than one in ASCII, and `open` and `mkdir` take no path with a zero byte. -/
def expanded (env : Environment) (package : Path) (key : Text) : Option (List Component) :=
  if !isAscii key && !isAscii (pathText package) then none
  else
    match env.format (!isAscii key) (template package key) with
    | none => none
    | some path => if '\x00' ∈ path then none else some (components path)

/-- `with open(k,'w+') as f: f.write(...)`, where what is written may raise -/
def openWrite (world : World) (parts : List Component) (content : Option Text) : Outcome :=
  match opened world parts with
  | none => ⟨world, [], false⟩
  | some path =>
      match content with
      | none => ⟨write world path [], [path], false⟩
      | some content => ⟨write world path content, [path], true⟩

def create (world : World) (parts : List Component) (content : Option Text) : Outcome :=
  openWrite (makedirs world [] parts.dropLast) parts content

/-- One step of the loop over `data`. -/
def stageEntry (env : Environment) (package : Path) (world : World) (entry : Text × Text) :
    Outcome :=
  match expanded env package entry.1 with
  | none => ⟨world, [], false⟩
  | some parts => create world parts (env.encoded entry.2)

def Outcome.andThen (outcome : Outcome) (next : World → Outcome) : Outcome :=
  if outcome.ok then
    let later := next outcome.world
    ⟨later.world, outcome.written ++ later.written, later.ok⟩
  else outcome

def stageData (env : Environment) (package : Path) (world : World) :
    List (Text × Text) → Outcome
  | [] => ⟨world, [], true⟩
  | entry :: rest =>
      (stageEntry env package world entry).andThen fun world => stageData env package world rest

/-- `os.chmod(path,0755)` -/
def chmod (world : World) (path : Path) : World :=
  match world path with
  | some (.file content _) => Function.update world path (some (.file content true))
  | _ => world

def maintainerScripts : List Text :=
  ["preinst".toList, "postinst".toList, "prerm".toList, "postrm".toList]

def chmodScripts (package : Path) (world : World) : World :=
  maintainerScripts.foldl (fun world name => chmod world (package ++ ["CONTROL".toList, name])) world

/-- The fields that are left, as they are iterated. A value that is no string has no text. -/
abbrev Fields := List (Text × Option Text)

/-- A variable of the environment is a `str`, which is joined to the `unicode` of the other
fields only where it is ASCII. -/
def Fields.setMaintainer (OPKG_MAINTAINER : Option Text) (fields : Fields) : Fields :=
  match OPKG_MAINTAINER with
  | some maintainer =>
      ("Maintainer".toList, if isAscii maintainer then some maintainer else none) ::
        fields.filter fun field => field.1 ≠ "Maintainer".toList
  | none => fields

def stringField (field : Text × Option Text) : Option (Text × Text) :=
  field.2.map fun value => (field.1, value)

/-- The rendering of the fields, which raises at a value that is no string. -/
def Fields.rendered (fields : Fields) : Option Text := (fields.mapM stringField).map controlText

def controlPath (package : Path) : Path := package ++ ["CONTROL".toList, "control".toList]

def controlParts (package : Path) : List Component := (controlPath package).map .name

def writeControl (package : Path) (fields : Fields) (world : World) : Outcome :=
  create world (controlParts package) fields.rendered

/-- `opkg-buildyaml` up to the control file, for one iteration order of `data`. -/
def stage (env : Environment) (OPKG_MAINTAINER : Option Text) (temporary : Temporary)
    (fields : Fields) (data : List (Text × Text)) : Outcome :=
  (stageData env temporary.package temporary.world data).andThen fun world =>
    writeControl temporary.package (fields.setMaintainer OPKG_MAINTAINER)
      (chmodScripts temporary.package world)

end BotBrew.Opkg.Staging
