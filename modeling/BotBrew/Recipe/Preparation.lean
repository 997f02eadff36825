import BotBrew.Shell.Words

/-! `botbrew_download`, `botbrew_unpack`, `botbrew_copytree` and `botbrew_patchtree`. -/

set_option autoImplicit false

namespace BotBrew.Preparation

abbrev Path := List Text

inductive Node where
  | directory
  | file (content : Text)
  deriving DecidableEq

abbrev Tree := Path → Option Node

inductive Tool where
  | unzip
  | tar (decompression : Char)
  deriving DecidableEq

/-- A file of the recipe's `patch` directory -/
structure Patch where
  name : Text
  content : Text
  deriving DecidableEq

structure Recipe where
  archive : Text
  /-- The source directory in the unpacked archive -/
  subdirectory : Path
  patches : List Patch

/-- The remote archive, and what the commands make of it when they succeed. -/
structure Commands where
  remote : Text
  extract : Tool → Text → Tree
  patch : Patch → Tree → Tree

/-- How one run goes: what each command leaves when it fails, and after how many parts of
the sequence the run is stopped in any case. Errexit is ignored in a recipe that another
one imports. -/
structure Run where
  errexit : Bool
  wget : Option Text
  unpack : Option Tree
  copy : Option Tree
  patch : Patch → Option (Tree → Tree)
  marker : Patch → Option (Option Node)
  steps : Nat

structure World where
  archive : Option Text
  unpacked : Option Tree
  source : Option Tree

def World.empty : World := ⟨none, none, none⟩

def World.rmArchive (world : World) : World := { world with archive := none }

/-- The patterns of the `case` in `botbrew_unpack`. -/
def tool (archive : Text) : Option Tool :=
  if ".zip".toList <:+ archive ∨ ".jar".toList <:+ archive then some .unzip
  else if ".tgz".toList <:+ archive ∨ ".tar.gz".toList <:+ archive then some (.tar 'z')
  else if ".tar.bz2".toList <:+ archive then some (.tar 'j')
  else if ".tar.xz".toList <:+ archive then some (.tar 'J')
  else none

namespace Tree

def below (tree : Tree) (directory : Path) : Option Tree :=
  if directory = [] ∨ (tree directory).isSome then some fun path => tree (directory ++ path) else none

/-- `cp -a directory/* .` into a new directory -/
def visible (tree : Tree) : Tree
  | [] => some .directory
  | name :: path => if Shell.isHidden name then none else tree (name :: path)

def write (tree : Tree) (path : Path) (node : Option Node) : Tree :=
  fun other => if other = path then node else tree other

end Tree

/-- `.patch.${PATCHNAME}` -/
def Patch.marker (patch : Patch) : Path := [".patch.".toList ++ patch.name]

def botbrew_download (commands : Commands) (run : Run) (world : World) : World × Bool :=
  match world.archive with
  | some _ => (world, true)
  | none =>
    match run.wget with
    | none => ({ world with archive := some commands.remote }, true)
    | some left => (({ world with archive := some left } : World).rmArchive, false)

def botbrew_unpack (commands : Commands) (recipe : Recipe) (run : Run) (world : World) : World × Bool :=
  match world.archive, world.unpacked with
  | some archive, none =>
    match tool recipe.archive with
    | none => (world, false)
    | some tool =>
      match run.unpack with
      | none => ({ world with unpacked := some (commands.extract tool archive) }, true)
      | some left => ({ world with unpacked := some left }, false)
  | _, _ => (world, false)

def botbrew_copytree (recipe : Recipe) (run : Run) (world : World) : World × Bool :=
  match world.unpacked.bind (·.below recipe.subdirectory) with
  | none => (world, false)
  | some tree =>
    match world.source with
    | some _ => (world, false)
    | none =>
      match run.copy with
      | none => ({ world with source := some tree.visible }, true)
      | some left => ({ world with source := some left }, false)

/-- `cp ${PATCH} .patch.${PATCHNAME}` -/
def mark (run : Run) (patch : Patch) (tree : Tree) : Tree × Bool :=
  match run.marker patch with
  | none => (tree.write patch.marker (some (.file patch.content)), true)
  | some left => (tree.write patch.marker left, false)

/-- The subshell of `botbrew_patchtree`. Where errexit is ignored, a failing patch does not
end it, and its status is that of the copy. -/
def patchIn (commands : Commands) (run : Run) (patch : Patch) (tree : Tree) : Tree × Bool :=
  match run.patch patch with
  | none => mark run patch (commands.patch patch tree)
  | some damage => if run.errexit then (damage tree, false) else mark run patch (damage tree)

def botbrew_patchtree (commands : Commands) (run : Run) (patch : Patch) (world : World) : World × Bool :=
  match world.source with
  | none => (world, false)
  | some tree =>
    match tree patch.marker with
    | some _ => (world, true)
    | none =>
      ({ world with source := some (patchIn commands run patch tree).1 }, (patchIn commands run patch tree).2)

inductive Part where
  | download
  | unpack
  | copytree
  | patchtree (patch : Patch)

/-- The sequence of a `botbrew_do_build`. Unpacking and copying are followed by `|| true`. -/
def Recipe.parts (recipe : Recipe) : List Part :=
  .download :: .unpack :: .copytree :: recipe.patches.map .patchtree

def Part.run (commands : Commands) (recipe : Recipe) (run : Run) (world : World) : Part → World × Bool
  | .download => botbrew_download commands run world
  | .unpack => ((botbrew_unpack commands recipe run world).1, true)
  | .copytree => ((botbrew_copytree recipe run world).1, true)
  | .patchtree patch => botbrew_patchtree commands run patch world

/-- The parts of the sequence that a run gets to, and whether it reaches the end. -/
def execute (commands : Commands) (recipe : Recipe) (run : Run) : Nat → List Part → World → World × Bool
  | _, [], world => (world, true)
  | 0, _ :: _, world => (world, false)
  | steps + 1, part :: parts, world =>
    if (part.run commands recipe run world).2 || !run.errexit then
      execute commands recipe run steps parts (part.run commands recipe run world).1
    else ((part.run commands recipe run world).1, false)

def prepare (commands : Commands) (recipe : Recipe) (run : Run) (world : World) : World × Bool :=
  execute commands recipe run run.steps recipe.parts world

def session (commands : Commands) (recipe : Recipe) (runs : List Run) (world : World) : World :=
  runs.foldl (fun world run => (prepare commands recipe run world).1) world

/-- A run in which no command fails and that nothing stops. -/
def Recipe.uninterrupted (recipe : Recipe) : Run :=
  ⟨true, none, none, none, fun _ => none, fun _ => none, recipe.parts.length⟩

end BotBrew.Preparation
