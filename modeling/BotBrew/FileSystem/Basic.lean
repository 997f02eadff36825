import BotBrew.Shell.Words

/-! Trees with symbolic links, and the walk along a path. -/

set_option autoImplicit false

namespace BotBrew.FileSystem

/-- The names from the root directory down -/
abbrev Path := List Text

/-- A part of a path between two separators -/
inductive Part where
  | here
  | parent
  | name (name : Text)
  deriving DecidableEq

structure Target where
  absolute : Bool
  parts : List Part
  deriving DecidableEq

inductive Node where
  | directory
  | file (content : Text)
  | link (target : Target)
  deriving DecidableEq

/-- Every path but that of the root directory -/
abbrev Files := Path → Option Node

/-- Where a path leads. It is missing if its last component is all that is not there. -/
inductive Result where
  | found (path : Path)
  | missing (path : Path)
  | failed
  deriving DecidableEq

structure Walk where
  result : Result
  links : List Path
  deriving DecidableEq

def Walk.via (walk : Walk) (link : Path) : Walk := ⟨walk.result, link :: walk.links⟩

/-- The directory at which the walk along a link goes on. -/
def Target.start (target : Target) (current : Path) : Path := if target.absolute then [] else current

/-- The walk up to the first link, which `follow` goes along. -/
def step (files : Files) (follow : Path → List Part → Walk) : Path → List Part → Walk
  | current, [] => ⟨.found current, []⟩
  | current, .here :: rest => step files follow current rest
  | current, .parent :: rest => step files follow current.dropLast rest
  | current, .name name :: rest =>
    match files (current ++ [name]) with
    | none => ⟨if rest = [] then .missing (current ++ [name]) else .failed, []⟩
    | some .directory => step files follow (current ++ [name]) rest
    | some (.file _) => ⟨if rest = [] then .found (current ++ [name]) else .failed, []⟩
    | some (.link target) => (follow (target.start current) (target.parts ++ rest)).via (current ++ [name])

def walk (files : Files) : Nat → Path → List Part → Walk
  | 0 => step files fun _ _ => ⟨.failed, []⟩
  | limit + 1 => step files (walk files limit)

def resolve (files : Files) (limit : Nat) (path : Path) : Walk := walk files limit [] (path.map .name)

/-- `[ -e path ]` -/
def exists? (files : Files) (limit : Nat) (path : Path) : Bool :=
  match (resolve files limit path).result with
  | .found _ => true
  | _ => false

/-- `readlink -f path` -/
def readlink (files : Files) (limit : Nat) (path : Path) : Option Path :=
  match (resolve files limit path).result with
  | .found path => some path
  | .missing path => some path
  | .failed => none

def isDirectory (files : Files) (path : Path) : Bool := path = [] || files path = some .directory

def remove (files : Files) (path : Path) : Files := fun other => if other = path then none else files other

def write (files : Files) (path : Path) (node : Node) : Files :=
  fun other => if other = path then some node else files other

/-- `rm path`, which takes no directory away. -/
def unlink (files : Files) (path : Path) : Files :=
  if files path = some .directory then files else remove files path

/-- The path that `ln -s` makes: below its second operand if that is a directory. -/
def linkPlace (files : Files) (limit : Nat) (path : Path) (name : Text) : Path :=
  match (resolve files limit path).result with
  | .found directory => if isDirectory files directory then directory ++ [name] else path
  | _ => path

/-- `ln -s`, which replaces nothing. `name` is the last component of the target. -/
def symlink (files : Files) (limit : Nat) (target : Target) (name : Text) (path : Path) : Files :=
  if (files (linkPlace files limit path name)).isSome then files
  else write files (linkPlace files limit path name) (.link target)

/-- A directory that is reached through no link -/
def Real (files : Files) (directory : Path) : Prop :=
  ∀ path, path <+: directory → path ≠ [] → files path = some .directory

/-- The names that `*` has to list in a directory, in some order -/
structure Lists (files : Files) (directory : Path) (names : List Text) : Prop where
  distinct : names.Nodup
  complete : ∀ name, name ∈ names ↔ Shell.isHidden name = false ∧ (files (directory ++ [name])).isSome = true

/-- `*`, which stands for itself where there is nothing to list. -/
def expand (names : List Text) : List Text := if names = [] then [['*']] else names

/-- A tree with finitely many entries -/
def ofEntries (entries : List (Path × Node)) : Files :=
  fun path => (entries.find? fun entry => entry.1 = path).map Prod.snd

/-- The names in a directory of such a tree -/
def children (entries : List (Path × Node)) (directory : Path) : List Text :=
  (entries.map Prod.fst).filterMap fun path => if path.dropLast = directory then path.getLast? else none

def namesIn (entries : List (Path × Node)) (directory : Path) : List Text :=
  (children entries directory).filter fun name => !Shell.isHidden name

end BotBrew.FileSystem
