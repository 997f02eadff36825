import BotBrew.Shell.Words
import Mathlib.Logic.Function.Basic

/-! `botbrew_import` and `botbrew_fix_crosslibconfig` on trees of hard links. -/

set_option autoImplicit false

namespace BotBrew.CrossLibConfig

abbrev Path := List Text

abbrev Inode := Nat

structure File where
  content : Text
  executable : Bool

/-- The names of regular files: in the export tree of a dependency, below the import
directory, and the scratch file. -/
inductive Place where
  | exported (item : Text) (path : Path)
  | imported (path : Path)
  | temp
  deriving DecidableEq

/-- The inodes from `next` on are free. -/
structure World where
  file : Inode → File
  inode : Place → Option Inode
  next : Inode

/-- A text that stays one word when it is not quoted -/
def isWord (text : Text) : Bool := text ≠ [] && !text.any Shell.isSeparator && !Shell.isPattern text

/-- The path of the import directory -/
structure ImportDirectory where
  text : Text
  plain : isWord text = true

/-- A script below the import directory, as `readlink -m` gives it. -/
structure Script where
  directory : Path
  name : Text
  plain : ∀ part ∈ directory ++ [name], isWord part = true ∧ '/' ∉ part

def Script.place (script : Script) : Place := .imported (script.directory ++ [script.name])

def markerPrefix : Text := ".crosslibconfig.".toList

/-- `${DIR}/.crosslibconfig.${NAME}` -/
def markerPath (directory : Path) (name : Text) : Path := directory ++ [markerPrefix ++ name]

def Script.marker (script : Script) : Place := .imported (markerPath script.directory script.name)

def World.write (world : World) (inode : Inode) (file : File) : World :=
  { world with file := Function.update world.file inode file }

def World.bind (world : World) (place : Place) (inode : Option Inode) : World :=
  { world with inode := Function.update world.inode place inode }

/-- A new file under a name -/
def World.create (world : World) (place : Place) (file : File) : World :=
  { (world.write world.next file).bind place (some world.next) with next := world.next + 1 }

/-- `mv` within one file system -/
def rename (world : World) (source target : Place) : Option World :=
  match world.inode source with
  | none => none
  | some inode => some ((world.bind target (some inode)).bind source none)

/-- `> temp` -/
def truncate (world : World) (content : Text) : World :=
  match world.inode .temp with
  | some inode => world.write inode ⟨content, (world.file inode).executable⟩
  | none => world.create .temp ⟨content, false⟩

/-- `>> temp` -/
def append (world : World) (content : Text) : World :=
  match world.inode .temp with
  | some inode => truncate world ((world.file inode).content ++ content)
  | none => truncate world content

def lines (text : Text) : List Text := text.splitOnP (· == '\n')

/-- `s/^prefix=.*//g` -/
def blank (line : Text) : Text := if "prefix=".toList <+: line then [] else line

def sed (content : Text) : Text := ['\n'].intercalate ((lines content).map blank)

/-- The commands of the branch for `*/bin`, in their order. -/
inductive Command where
  | header
  | prefixLine
  | body
  | backup
  | install
  | chmod
  deriving DecidableEq

def commands : List Command := [.header, .prefixLine, .body, .backup, .install, .chmod]

/-- `$(dirname ${DIR})` -/
def parent (importDir : ImportDirectory) (script : Script) : Text :=
  importDir.text ++ script.directory.dropLast.flatMap ('/' :: ·)

/-- One command, or nothing when it fails. -/
def exec (importDir : ImportDirectory) (script : Script) (world : World) : Command → Option World
  | .header => some (truncate world "#!/bin/sh\n".toList)
  | .prefixLine => some (append world ("prefix=".toList ++ parent importDir script ++ ['\n']))
  | .body =>
      match world.inode script.place with
      | none => none
      | some inode => some (append world (sed (world.file inode).content))
  | .backup => rename world script.place script.marker
  | .install => rename world .temp script.place
  | .chmod =>
      match world.inode script.place with
      | none => none
      | some inode => some (world.write inode ⟨(world.file inode).content, true⟩)

/-- The commands that are reached: a command that fails ends the script when `errexit` is
in effect. The status is missing when the call was stopped. -/
def runCommands (importDir : ImportDirectory) (script : Script) (errexit : Bool) :
    Nat → List Command → Bool → World → World × Option Bool
  | _, [], status, world => (world, some status)
  | 0, _ :: _, _, world => (world, none)
  | limit + 1, command :: rest, _, world =>
      match exec importDir script world command with
      | some next => runCommands importDir script errexit limit rest true next
      | none =>
          if errexit then (world, some false)
          else runCommands importDir script errexit limit rest false world

/-- A call that is stopped after `limit` commands unless it ends before. -/
def botbrew_fix_crosslibconfig (importDir : ImportDirectory) (script : Script) (errexit : Bool) (limit : Nat)
    (world : World) : World × Option Bool :=
  if (world.inode script.marker).isSome then (world, some true)
  else if script.directory.getLast? = some "bin".toList then
    runCommands importDir script errexit limit commands true world
  else (world, some false)

/-- `export/*` leaves out what begins with a dot. -/
def visible : Path → Bool
  | ('.' :: _) :: _ => false
  | _ => true

/-- `cp -rlf` replaces a name that is there. It links what a symbolic link leads to, so
that only regular files are imported. -/
def link (item : Text) (world : World) (path : Path) : World :=
  match world.inode (.exported item path) with
  | some inode => if visible path then world.bind (.imported path) (some inode) else world
  | none => world

def importPrefix : Text := ".import.".toList

def importMarker (item : Text) : Place := .imported [importPrefix ++ item]

/-- `touch` of a file that is not there -/
def touch (world : World) (place : Place) : World := world.create place ⟨[], false⟩

/-- The files that `cp` has linked, and whether it came to its end. -/
structure Copying where
  item : Text
  files : List Path
  complete : Bool

def Copying.Valid (copying : Copying) (world : World) : Prop :=
  copying.complete = true → ∀ path, (world.inode (.exported copying.item path)).isSome →
    visible path = true → path ∈ copying.files

/-- One item of the loop in `botbrew_import`, and whether the loop goes on. -/
def importItem (world : World) (copying : Copying) : World × Bool :=
  if (world.inode (importMarker copying.item)).isSome then (world, true)
  else
    let linked := copying.files.foldl (link copying.item) world
    if copying.complete then (touch linked (importMarker copying.item), true) else (linked, false)

/-- `botbrew_import` with these dependencies, which have been built. -/
def botbrew_import (world : World) : List Copying → World
  | [] => world
  | copying :: rest =>
      match importItem world copying with
      | (next, true) => botbrew_import next rest
      | (next, false) => next

inductive Call where
  | importAll (items : List Copying)
  | fix (script : Script) (errexit : Bool) (limit : Nat)

def call (importDir : ImportDirectory) (world : World) : Call → World × Option Bool
  | .importAll items => (botbrew_import world items, none)
  | .fix script errexit limit => botbrew_fix_crosslibconfig importDir script errexit limit world

structure Initial (world : World) : Prop where
  imported : ∀ path, world.inode (.imported path) = none
  temp : world.inode .temp = none
  used : ∀ place inode, world.inode place = some inode → inode < world.next

inductive Reaches (importDir : ImportDirectory) (allowed : World → Call → Prop) (start : World) :
    World → Prop
  | start : Reaches importDir allowed start start
  | step {world : World} (before : Reaches importDir allowed start world) (made : Call)
      (may : allowed world made) : Reaches importDir allowed start (call importDir world made).1

structure Untouched (start world : World) : Prop where
  names : ∀ item path, world.inode (.exported item path) = start.inode (.exported item path)
  files : ∀ item path inode, start.inode (.exported item path) = some inode →
    world.file inode = start.file inode

/-- The script is the fixed one of some dependency that exports it. -/
def Fixed (importDir : ImportDirectory) (start : World) (script : Script) (world : World) : Prop :=
  ∃ item original inode,
    start.inode (.exported item (script.directory ++ [script.name])) = some original ∧
    world.inode script.place = some inode ∧
    lines (world.file inode).content =
      "#!/bin/sh".toList :: ("prefix=".toList ++ parent importDir script) ::
        (lines (start.file original).content).map blank

/-- The call gets to its commands. -/
def Begins (world : World) (script : Script) : Prop :=
  world.inode script.marker = none ∧ script.directory.getLast? = some "bin".toList

/-- A call that keeps the marker of a script in step with the script: it is not stopped
between the two `mv`, it does not go on without the script, and it links no file over a
script that is fixed, nor over a marker. -/
inductive Careful (world : World) : Call → Prop
  | importAll {items : List Copying}
      (files : ∀ copying ∈ items, ∀ directory name, directory ++ [name] ∈ copying.files →
        ¬ markerPrefix <+: name ∧ world.inode (.imported (markerPath directory name)) = none) :
      Careful world (.importAll items)
  | fix {script : Script} {errexit : Bool} {limit : Nat} (name : ¬ markerPrefix <+: script.name)
      (between : Begins world script → (world.inode script.place).isSome → limit ≠ 4)
      (missing : Begins world script → world.inode script.place = none →
        errexit = true ∨ limit ≤ 4) :
      Careful world (.fix script errexit limit)

/-- The copies of an import are what `cp` can have made. -/
def Possible (world : World) : Call → Prop
  | .importAll items => ∀ copying ∈ items, copying.Valid world
  | .fix _ _ _ => True

end BotBrew.CrossLibConfig
