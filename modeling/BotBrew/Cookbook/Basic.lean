import Mathlib.Logic.Function.Basic
import BotBrew.Shell.Script

/-! The data of the `botbrew` script: recipe directories as file trees, the
shell environment that recipes are sourced into, and the log of a run.

External commands are judged by an `Outcome` each, taken in the order in which
they run; what one of them writes is an arbitrary function of the environment,
of its outcome and of the files it finds. -/

set_option autoImplicit false

namespace BotBrew.Cookbook

open Shell

/-- An absolute directory, component by component. -/
abbrev Dir := List String

/-- A path relative to a recipe's directory. -/
abbrev Path := List String

abbrev File := String

abbrev Tree := Path → Option File

/-- A bash variable. A scalar is an array of one element. -/
abbrev Value := List String

abbrev Vars := String → Value

def Vars.scalar (vars : Vars) (name : String) : String := (vars name).headD ""

/-- A `*` does not match a name that starts with a dot. -/
def visible (name : String) : Bool := name.toList.head? != some '.'

/-- `export/.d` -/
def exportMark : Path := ["export", ".d"]

/-- `import/.import.<item>` -/
def importMark (item : String) : Path := ["import", ".import." ++ item]

def IsMark (path : Path) : Prop := path = exportMark ∨ ∃ item, path = importMark item

theorem importMark_injective {left right : String} (same : importMark left = importMark right) :
    left = right := by
  simpa [importMark] using same

theorem exportMark_ne_importMark (item : String) : exportMark ≠ importMark item := by
  simp [exportMark, importMark]

/-- What one external command came to: its exit status and, where it failed,
the part of its work that it had done. -/
structure Outcome where
  code : Status
  progress : Path → Bool

/-- What an external command of a recipe does to the recipe's directory. The
marker files belong to the script, and no such command writes them. -/
structure Effect where
  run : Vars → Outcome → Tree → Tree
  keeps_marks : ∀ vars outcome tree path, IsMark path → run vars outcome tree path = tree path

/-- A command of a `botbrew_do_*` body; a guarded one is followed by `|| true`. -/
inductive Command where
  | external (guarded : Bool) (effect : Effect)
  | touchMark
  | call (guarded : Bool) (name : String) (args : List String)

/-- Shell functions: the ones `botbrew` defines, and the bodies recipes write. -/
inductive Fun where
  | body (commands : List Command)
  | botbrew_import
  | botbrew_recipe
  | do_query
  | do_build
  | do_package
  | do_clean
  | do_distclean
  | do_clobber
  | do_isbuilt

structure Env where
  vars : Vars
  funs : String → Option Fun

def Env.set (name : String) (value : Value) (env : Env) : Env :=
  { env with vars := Function.update env.vars name value }

def Env.define (name : String) (body : Fun) (env : Env) : Env :=
  { env with funs := Function.update env.funs name (some body) }

/-- `unset -f name` -/
def Env.unset (name : String) (env : Env) : Env :=
  { env with funs := Function.update env.funs name none }

/-- A statement of a recipe file. Values may refer to variables and to `$(pwd)`. -/
inductive Statement where
  | assign (name : String) (value : Vars → Dir → Value)
  | define (name : String) (body : Fun)

abbrev Recipe := List Statement

def Statement.source (dir : Dir) (env : Env) : Statement → Env
  | .assign name value => env.set name (value env.vars dir)
  | .define name body => env.define name body

/-- `. ${G_RECIPE}` -/
def Recipe.source (recipe : Recipe) (dir : Dir) (env : Env) : Env :=
  recipe.foldl (Statement.source dir) env

inductive Event where
  | called (dir : Dir) (name : String)
  | returned (dir : Dir) (name : String) (tree : Tree)
  | ran (dir : Dir) (guarded : Bool) (code : Status)
  | touched (dir : Dir) (code : Status)
  | copied (dir : Dir) (item : String) (exported : Tree)
  | packaged (dir : Dir) (item : String) (tree : Tree)

/-- The file system, the number of external commands run so far, and the log
with the latest event first. -/
structure World where
  tree : Dir → Tree
  clock : Nat
  log : List Event

namespace World

def record (event : Event) (world : World) : World := { world with log := event :: world.log }

def tick (world : World) : World := { world with clock := world.clock + 1 }

def update (dir : Dir) (change : Tree → Tree) (world : World) : World :=
  { world with tree := Function.update world.tree dir (change (world.tree dir)) }

@[simp] theorem record_tree (event : Event) (world : World) :
    (world.record event).tree = world.tree := rfl

@[simp] theorem record_log (event : Event) (world : World) :
    (world.record event).log = event :: world.log := rfl

@[simp] theorem record_clock (event : Event) (world : World) :
    (world.record event).clock = world.clock := rfl

@[simp] theorem tick_tree (world : World) : world.tick.tree = world.tree := rfl

@[simp] theorem tick_log (world : World) : world.tick.log = world.log := rfl

@[simp] theorem update_log (dir : Dir) (change : Tree → Tree) (world : World) :
    (world.update dir change).log = world.log := rfl

@[simp] theorem update_tree_self (dir : Dir) (change : Tree → Tree) (world : World) :
    (world.update dir change).tree dir = change (world.tree dir) := by
  simp [update]

theorem update_tree_of_ne {dir other : Dir} (different : other ≠ dir)
    (change : Tree → Tree) (world : World) :
    (world.update dir change).tree other = world.tree other := by
  simp [update, different]

end World

/-- What a subshell keeps to itself. -/
structure Locals where
  cwd : Dir
  env : Env

abbrev Machine := Shell.Machine Locals World

abbrev Script := Shell.Script Locals World

def record (event : Event) (machine : Machine) : Machine :=
  { machine with world := machine.world.record event }

/-- What surrounds a run: the recipe files and package descriptions of the
cookbook, the settings made by `config.sh` and the rest of the script, and the
outcome of every external command. -/
structure Site where
  root : String
  settings : Vars
  helpers : String → Option Fun
  recipe : Dir → String → Option Recipe
  isDir : Dir → Bool
  packages : Dir → List String
  make_clean : Vars → Outcome → Tree → Tree
  outcome : Nat → Outcome

/-- The variables that `botbrew` sets once, when it starts. -/
def Site.vars (site : Site) : Vars
  | "G_SELF" => [site.root ++ "/botbrew"]
  | "G_ROOT" => [site.root]
  | "G_TOOLCHAIN" => ["toolchain"]
  | "G_ARCHIVE" => ["archive"]
  | "G_COOKBOOK" => ["cookbook"]
  | "G_RECIPE" => ["recipe"]
  | "G_REPO" => ["repo"]
  | "G_SOURCE" => ["source"]
  | "G_OBJECT" => ["object"]
  | "G_IMPORT" => ["import"]
  | "G_EXPORT" => ["export"]
  | "G_PACKAGE" => ["package"]
  | "G_INSTALLPREFIX" => ["/botbrew"]
  | "G_IMPORT_PREFIX" => ["import/botbrew"]
  | "G_EXPORT_PREFIX" => ["export/botbrew"]
  | name => site.settings name

/-- The functions that `botbrew` defines. -/
def Site.funs (site : Site) : String → Option Fun
  | "botbrew_import" => some .botbrew_import
  | "botbrew_recipe" => some .botbrew_recipe
  | "_botbrew_do_query" => some .do_query
  | "_botbrew_do_build" => some .do_build
  | "_botbrew_do_package" => some .do_package
  | "_botbrew_do_clean" => some .do_clean
  | "_botbrew_do_distclean" => some .do_distclean
  | "_botbrew_do_clobber" => some .do_clobber
  | "_botbrew_do_isbuilt" => some .do_isbuilt
  | name => site.helpers name

def Site.env (site : Site) : Env := { vars := site.vars, funs := site.funs }

/-- The directory of a dependency, `${G_ROOT}/${G_COOKBOOK}/${item}`. -/
def Vars.itemDir (vars : Vars) (item : String) : Dir :=
  [vars.scalar "G_ROOT", vars.scalar "G_COOKBOOK", item]

end BotBrew.Cookbook
