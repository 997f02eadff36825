import Mathlib.Data.Set.Function
import Mathlib.Logic.Relation
import BotBrew.Cookbook.Functions

/-! What a recipe inherits when `botbrew_import` builds it for another one, and what its build
may depend on. -/

set_option autoImplicit false

namespace BotBrew.Cookbook

open Shell Shell.Script

/-! The environment of a nested build -/

/-- The environment in which a recipe's build is looked up -/
def Recipe.entered (recipe : Recipe) (dir : Dir) (env : Env) : Env :=
  (enter recipe (setVar "PACKAGE_ACTION" ["build"] ⟨dir, env⟩)).env

/-- A recipe that is being built, and the item that it has come to import -/
structure Link where
  dir : Dir
  recipe : Recipe
  dst : String
  dep : List String
  item : String

/-- The environment in which the item is built, if the recipe is built in `env` -/
def Link.env (link : Link) (env : Env) : Env :=
  (setVar "item" [link.item] (setVar "DEP" link.dep (setVar "DST" [link.dst]
    ⟨link.dir, link.recipe.entered link.dir env⟩))).env

/-- What is left of a chain of recipes each of which imports the next, the outermost first -/
def inherited (site : Site) (chain : List Link) : Env := chain.foldl (fun env link => link.env env) site.env

/-- `botbrew_recipe build` as `botbrew_import` calls it, where errexit is ignored -/
def importBuild (site : Site) (fuel : Nat) (dir : Dir) (env : Env) (world : World) : Option (Status × World) :=
  (call site fuel "botbrew_recipe" ["build"] false ⟨⟨dir, env⟩, world⟩).map fun result =>
    (result.1.status, result.2.world)

/-- The function that `botbrew_recipe` calls for an action -/
def selected (action : String) (env : Env) : Option Fun :=
  (env.funs ("botbrew_do_" ++ action)).or (env.funs ("_botbrew_do_" ++ action))

/-! What recipes define themselves -/

def Recipe.assigned (recipe : Recipe) : List String :=
  recipe.filterMap fun
    | .assign name _ => some name
    | .define _ _ => none

def Recipe.own (recipe : Recipe) (name : String) : Option Fun :=
  recipe.foldl (fun found statement => match statement with
    | .assign _ _ => found
    | .define other body => if other = name then some body else found) none

/-- The variables that `botbrew_recipe` sets before it sources a recipe -/
def resetNames : List String :=
  ["PACKAGE_ACTION", "G_WORKDIR", "G_SYSDIR", "G_BINDIR", "G_LIBDIR", "G_INCDIR", "G_EXP_SYSDIR", "G_EXP_BINDIR",
    "G_EXP_LIBDIR", "G_EXP_INCDIR", "PACKAGE_NAME", "PACKAGE_VERSION", "PACKAGE_DEPEND", "G_BOTBREW"]

/-! What a build comes to -/

/-- The variables and functions that are the same in two shells -/
structure Scope where
  vars : Set String
  funs : Set String

/-- Inside a recipe: what `botbrew_recipe` resets, and what the recipe assigns and defines -/
def Scope.within (scope : Scope) (recipe : Recipe) : Scope where
  vars := scope.vars ∪ {name | name ∈ resetNames} ∪ {name | name ∈ recipe.assigned}
  funs := scope.funs ∪ {name | name ∈ hooks} ∪ {name | (recipe.own name).isSome}

def Scope.also (scope : Scope) (names : List String) : Scope :=
  { scope with vars := scope.vars ∪ {name | name ∈ names} }

inductive Activity where
  | call (name : String) (args : List String)
  | run (commands : List Command)
  | items (dst : String) (items : List String)

/-- Something that a build does, and where it stands then -/
structure Stage where
  fuel : Nat
  scope : Scope
  activity : Activity
  locals : Locals
  world : World

/-- The name by which `botbrew_recipe` calls a function for an action -/
def chosen (action : String) (env : Env) : String :=
  if (env.funs ("botbrew_do_" ++ action)).isSome then "botbrew_do_" ++ action else "_botbrew_do_" ++ action

/-- What comes before the action -/
def checkBuilt (call : Call) (action : String) (args : List String) : Script :=
  if action = "build" then
    reading fun machine => ifElse (call (chosen "isbuilt" machine.locals.env) args) (exitWith 0) pass
  else pass

def recipeLocals (recipe : Recipe) (args : List String) (locals : Locals) : Locals :=
  enter recipe (setVar "PACKAGE_ACTION" [args.headD ""] locals)

def destination (args : List String) (vars : Vars) : String :=
  if args.headD "" = "" then vars.scalar "G_IMPORT" else args.headD ""

def dependencies (args : List String) (vars : Vars) : List String :=
  if args.headD "" = "" then vars "PACKAGE_DEPEND" else args.tail

def importLocals (args : List String) (locals : Locals) : Locals :=
  setVar "DEP" (dependencies args locals.env.vars) (setVar "DST" [destination args locals.env.vars] locals)

/-- The shell in which an item is built -/
def itemLocals (item : String) (locals : Locals) : Locals where
  cwd := (setVar "item" [item] locals).env.vars.itemDir item
  env := (setVar "item" [item] locals).env

/-- What comes first in a stage, and what comes next once that is done. -/
inductive Starts (site : Site) : Stage → Stage → Prop where
  | body {fuel : Nat} {scope : Scope} {name : String} {args : List String} {commands : List Command}
      {locals : Locals} {world : World} (found : locals.env.funs name = some (.body commands)) :
      Starts site ⟨fuel + 1, scope, .call name args, locals, world⟩
        ⟨fuel, scope, .run commands, locals, world.record (.called locals.cwd name)⟩
  | command {fuel : Nat} {scope : Scope} {guarded : Bool} {name : String} {args : List String}
      {rest : List Command} {locals : Locals} {world : World} :
      Starts site ⟨fuel, scope, .run (.call guarded name args :: rest), locals, world⟩
        ⟨fuel, scope, .call name args, locals, world⟩
  | rest {fuel : Nat} {scope : Scope} {command : Command} {rest : List Command} {locals left : Locals}
      {world final : World} {code : Status}
      (ran : runCommand site (call site fuel) command false ⟨locals, world⟩ = some (.done code, ⟨left, final⟩)) :
      Starts site ⟨fuel, scope, .run (command :: rest), locals, world⟩ ⟨fuel, scope, .run rest, left, final⟩
  | imports {fuel : Nat} {scope : Scope} {name : String} {args : List String} {locals : Locals} {world : World}
      (found : locals.env.funs name = some .botbrew_import) :
      Starts site ⟨fuel + 1, scope, .call name args, locals, world⟩
        ⟨fuel, scope.also ["DST", "DEP"],
          .items (destination args locals.env.vars) (dependencies args locals.env.vars),
          importLocals args locals, (world.record (.called locals.cwd name)).tick⟩
  | nested {fuel : Nat} {scope : Scope} {dst item : String} {rest : List String} {locals : Locals} {world : World}
      (unmarked : world.tree locals.cwd [dst, ".import." ++ item] = none)
      (found : site.isDir (itemLocals item locals).cwd) :
      Starts site ⟨fuel, scope, .items dst (item :: rest), locals, world⟩
        ⟨fuel, scope.also ["item"], .call "botbrew_recipe" ["build"], itemLocals item locals, world⟩
  | items {fuel : Nat} {scope : Scope} {dst item : String} {rest : List String} {locals left : Locals}
      {world final : World} {code : Status}
      (ran : importItem site (call site fuel) dst item false ⟨locals, world⟩ = some (.done code, ⟨left, final⟩)) :
      Starts site ⟨fuel, scope, .items dst (item :: rest), locals, world⟩
        ⟨fuel, scope.also ["item"], .items dst rest, left, final⟩
  | isbuilt {fuel : Nat} {scope : Scope} {name : String} {args : List String} {recipe : Recipe} {locals : Locals}
      {world : World} (found : locals.env.funs name = some .botbrew_recipe)
      (sourced : site.recipe locals.cwd (locals.env.vars.scalar "G_RECIPE") = some recipe)
      (build : args.headD "" = "build") :
      Starts site ⟨fuel + 1, scope, .call name args, locals, world⟩
        ⟨fuel, scope.within recipe, .call (chosen "isbuilt" (recipeLocals recipe args locals).env) args.tail,
          recipeLocals recipe args locals, world⟩
  | action {fuel : Nat} {scope : Scope} {name : String} {args : List String} {recipe : Recipe}
      {locals left : Locals} {world final : World} {code : Status}
      (found : locals.env.funs name = some .botbrew_recipe)
      (sourced : site.recipe locals.cwd (locals.env.vars.scalar "G_RECIPE") = some recipe)
      (listed : args.headD "" ∈ actions)
      (unbuilt : checkBuilt (call site fuel) (args.headD "") args.tail false ⟨recipeLocals recipe args locals, world⟩ =
        some (.done code, ⟨left, final⟩)) :
      Starts site ⟨fuel + 1, scope, .call name args, locals, world⟩
        ⟨fuel, scope.within recipe, .call (chosen (args.headD "") left.env) args.tail, left, final⟩

/-! What a stage reads and calls -/

/-- Whatever the variables outside the scope are, the result is the same. -/
def Scope.Fixes {α : Type} (scope : Scope) (vars : Vars) (f : Vars → α) : Prop :=
  ∀ vars', Set.EqOn vars vars' scope.vars → f vars = f vars'

/-- Each value that the recipe assigns comes from the scope and from what it has assigned before. -/
def Recipe.Closed (scope : Scope) (dir : Dir) (env : Env) (recipe : Recipe) : Prop :=
  ∀ before name value later, recipe = before ++ .assign name value :: later →
    (scope.within before).Fixes (before.source dir env).vars fun vars => value vars dir

def Fun.Closed (site : Site) (scope : Scope) (args : List String) (locals : Locals) (world : World) : Fun → Prop
  | .body _ | .do_query | .do_build => True
  | .botbrew_import => args.headD "" = "" → {"G_IMPORT", "PACKAGE_DEPEND"} ⊆ scope.vars
  | .botbrew_recipe => "G_RECIPE" ∈ scope.vars ∧
      ∀ recipe, site.recipe locals.cwd (locals.env.vars.scalar "G_RECIPE") = some recipe →
        {"G_IMPORT_PREFIX", "G_EXPORT_PREFIX"} ⊆ scope.vars ∧
          recipe.Closed scope locals.cwd (reset locals.cwd (setVar "PACKAGE_ACTION" [args.headD ""] locals).env)
  | .do_package => {"G_ROOT", "G_REPO"} ⊆ scope.vars
  | .do_clean => "G_OBJECT" ∈ scope.vars ∧
      ((world.tree locals.cwd [locals.env.vars.scalar "G_OBJECT", "Makefile"]).isSome →
        scope.Fixes locals.env.vars fun vars =>
          site.make_clean vars (site.outcome world.clock) (world.tree locals.cwd))
  | .do_distclean => {"G_OBJECT", "G_IMPORT"} ⊆ scope.vars
  | .do_clobber => {"G_SOURCE", "G_OBJECT", "G_IMPORT", "G_EXPORT"} ⊆ scope.vars
  | .do_isbuilt => "G_EXPORT" ∈ scope.vars

def Activity.Closed (site : Site) (fuel : Nat) (scope : Scope) (locals : Locals) (world : World) : Activity → Prop
  | .call name args => name ∈ scope.funs ∧
      ∀ body, locals.env.funs name = some body → body.Closed site scope args locals world
  | .run (.external _ effect :: _) => scope.Fixes locals.env.vars fun vars =>
      effect.run vars (site.outcome world.clock) (world.tree locals.cwd)
  | .run (.touchMark :: _) => "G_EXPORT" ∈ scope.vars
  | .run _ => True
  | .items _ [] => True
  | .items dst (item :: _) => world.tree locals.cwd [dst, ".import." ++ item] = none →
      {"G_ROOT", "G_COOKBOOK"} ⊆ scope.vars ∧
        ∀ after, site.isDir (itemLocals item locals).cwd →
          importBuild site fuel (itemLocals item locals).cwd (itemLocals item locals).env world = some (0, after) →
            "G_EXPORT" ∈ scope.vars

/-- What the stage itself reads and calls lies in its scope. -/
def Stage.Closed (site : Site) (stage : Stage) : Prop :=
  stage.activity.Closed site stage.fuel stage.scope stage.locals stage.world

/-- Every stage that is reached is closed. -/
def Stage.Confined (site : Site) (stage : Stage) : Prop :=
  ∀ later, Relation.ReflTransGen (Starts site) stage later → later.Closed site

/-- A direct build of a recipe -/
def directBuild (site : Site) (fuel : Nat) (scope : Scope) (dir : Dir) (world : World) : Stage :=
  ⟨fuel, scope, .call "botbrew_recipe" ["build"], ⟨dir, site.env⟩, world⟩

/-- The environment has the variables and functions of the scope as `botbrew` set them. -/
structure Env.Unchanged (site : Site) (scope : Scope) (env : Env) : Prop where
  vars : Set.EqOn env.vars site.vars scope.vars
  funs : Set.EqOn env.funs site.funs scope.funs

end BotBrew.Cookbook
