import Mathlib.Logic.Relation
import Mathlib.Order.WellFoundedSet
import BotBrew.Cookbook.Functions

/-! Cookbooks of plain recipes.

A plain recipe lists its dependencies, leaves the settings of the script alone
and defines `botbrew_do_build` only. `Run` says what a build of such a recipe
does to the world, with errexit explicit and the shell environment gone. -/

set_option autoImplicit false

namespace BotBrew.Cookbook

open Shell

/-- A command of a plain `botbrew_do_build` before its last, `touch ${G_EXPORT}/.d`. -/
inductive Step where
  | external (guarded : Bool) (effect : Effect)
  | botbrew_import

def Step.command : Step → Command
  | .external guarded effect => .external guarded effect
  | .botbrew_import => .call false "botbrew_import" []

def buildBody (steps : List Step) : List Command := steps.map Step.command ++ [.touchMark]

def scriptVars : List String :=
  ["G_ROOT", "G_COOKBOOK", "G_RECIPE", "G_REPO", "G_SOURCE", "G_OBJECT", "G_IMPORT", "G_EXPORT"]

structure Recipe.Plain (recipe : Recipe) (depend : List String) (steps : List Step) : Prop where
  depend_eq : ∀ dir env, env.vars "PACKAGE_DEPEND" = [] →
    (recipe.source dir env).vars "PACKAGE_DEPEND" = depend
  vars_eq : ∀ dir env, ∀ name ∈ scriptVars, (recipe.source dir env).vars name = env.vars name
  build_eq : ∀ dir env,
    (recipe.source dir env).funs "botbrew_do_build" = some (.body (buildBody steps))
  funs_eq : ∀ dir env, ∀ name ≠ "botbrew_do_build",
    (recipe.source dir env).funs name = env.funs name

structure PlainBook (site : Site) where
  depend : Dir → List String
  steps : Dir → List Step
  plain : ∀ dir recipe, site.recipe dir "recipe" = some recipe →
    recipe.Plain (depend dir) (steps dir)

def Site.itemDir (site : Site) (item : String) : Dir := [site.root, "cookbook", item]

def Site.HasRecipe (site : Site) (dir : Dir) : Prop := (site.recipe dir "recipe").isSome

variable {site : Site}

def PlainBook.Lists (book : PlainBook site) (dep dir : Dir) : Prop :=
  site.HasRecipe dir ∧ ∃ item ∈ book.depend dir, dep = site.itemDir item

structure PlainBook.FiniteAcyclic (book : PlainBook site) : Prop where
  finite : {dir | site.HasRecipe dir}.Finite
  acyclic : ∀ dir, ¬ Relation.TransGen book.Lists dir dir

theorem PlainBook.FiniteAcyclic.wellFounded {book : PlainBook site}
    (acyclic : book.FiniteAcyclic) : WellFounded book.Lists := by
  have strict : IsStrictOrder Dir (Relation.TransGen book.Lists) :=
    { irrefl := acyclic.acyclic
      trans := fun _ _ _ => Relation.TransGen.trans }
  have onRecipes : {dir | site.HasRecipe dir}.WellFoundedOn (Relation.TransGen book.Lists) :=
    acyclic.finite.wellFoundedOn
  have accessible : ∀ dir, site.HasRecipe dir → Acc book.Lists dir := by
    intro dir present
    refine onRecipes.induction (P := fun dir => Acc book.Lists dir) present ?_
    intro dir _ below
    refine Acc.intro dir fun dep listed => ?_
    by_cases recipe : site.HasRecipe dep
    · exact below dep recipe (.single listed)
    · exact Acc.intro dep fun _ further => absurd further.1 recipe
  refine ⟨fun dir => Acc.intro dir fun dep listed => ?_⟩
  by_cases recipe : site.HasRecipe dep
  · exact accessible dep recipe
  · exact Acc.intro dep fun _ further => absurd further.1 recipe

/-! The effect of single commands on the world -/

def World.start (tree : Dir → Tree) : World := { tree := tree, clock := 0, log := [] }

def World.afterExternal (site : Site) (dir : Dir) (guarded : Bool) (effect : Effect) (vars : Vars)
    (world : World) : World :=
  (world.tick.update dir (effect.run vars (site.outcome world.clock))).record
    (.ran dir guarded (site.outcome world.clock).code)

def World.afterTouch (site : Site) (dir : Dir) (world : World) : World :=
  ((world.tick.update dir fun tree =>
    if (site.outcome world.clock).code = 0 then touchPath exportMark tree else tree).record
      (.touched dir (site.outcome world.clock).code)).record
    (.ran dir false (site.outcome world.clock).code)

def World.afterCopy (site : Site) (dir : Dir) (item : String) (world : World) : World :=
  let copied := world.tick.update dir
    (copyTree "export" "import" (site.outcome world.clock) (world.tree (site.itemDir item)))
  if (site.outcome world.clock).code = 0 then
    copied.record (.copied dir item (world.tree (site.itemDir item)))
  else copied

def World.afterMark (site : Site) (dir : Dir) (item : String) (world : World) : World :=
  world.tick.update dir fun tree =>
    if (site.outcome world.clock).code = 0 then touchPath (importMark item) tree else tree

/-! Runs -/

/-- The parts of a build: a whole `botbrew_recipe build`, the rest of a
`botbrew_do_build` body, a `botbrew_import`, and the rest of its loop. -/
inductive Task where
  | recipe (errexit : Bool) (dir : Dir)
  | steps (errexit : Bool) (dir : Dir) (steps : List Step)
  | botbrew_import (errexit : Bool) (dir : Dir)
  | items (dir : Dir) (items : List String)

def World.afterCall (dir : Dir) (name : String) (world : World) : Flow → World
  | .exit _ => world
  | _ => world.record (.returned dir name (world.tree dir))

/-- The status of `botbrew_recipe build` once its `botbrew_do_build` ended. -/
def buildStatus (errexit : Bool) (flow : Flow) : Status :=
  match Script.called errexit flow with
  | .exit code => code
  | _ => 0

inductive Run (book : PlainBook site) : Task → World → Flow → World → Prop where
  | missing {errexit dir world} :
      site.recipe dir "recipe" = none →
      Run book (.recipe errexit dir) world (.done 1) world
  | built {errexit dir world} :
      site.HasRecipe dir → (world.tree dir exportMark).isSome →
      Run book (.recipe errexit dir) world (.done 0) world
  | build {errexit dir world flow after} :
      site.HasRecipe dir → world.tree dir exportMark = none →
      Run book (.steps errexit dir (book.steps dir))
        (world.record (.called dir "botbrew_do_build")) flow after →
      Run book (.recipe errexit dir) world (.done (buildStatus errexit flow))
        (after.afterCall dir "botbrew_do_build" flow)
  | touch {errexit dir world} :
      Run book (.steps errexit dir []) world
        (settle errexit (site.outcome world.clock).code) (world.afterTouch site dir)
  | external_exit {dir world effect vars rest} :
      (site.outcome world.clock).code ≠ 0 →
      Run book (.steps true dir (.external false effect :: rest)) world
        (.exit (site.outcome world.clock).code) (world.afterExternal site dir false effect vars)
  | external {errexit dir world guarded effect vars rest flow after} :
      (guarded = false → errexit = true → (site.outcome world.clock).code = 0) →
      Run book (.steps errexit dir rest) (world.afterExternal site dir guarded effect vars)
        flow after →
      Run book (.steps errexit dir (.external guarded effect :: rest)) world flow after
  | import_exit {errexit dir world code middle rest} :
      Run book (.botbrew_import errexit dir) world (.exit code) middle →
      Run book (.steps errexit dir (.botbrew_import :: rest)) world (.exit code)
        (middle.record (.ran dir false code))
  | importing {errexit dir world code middle rest flow after} :
      Run book (.botbrew_import errexit dir) world (.done code) middle →
      Run book (.steps errexit dir rest) (middle.record (.ran dir false code)) flow after →
      Run book (.steps errexit dir (.botbrew_import :: rest)) world flow after
  | mkdir_exit {dir world} :
      (site.outcome world.clock).code ≠ 0 →
      Run book (.botbrew_import true dir) world (.exit (site.outcome world.clock).code)
        (world.record (.called dir "botbrew_import")).tick
  | mkdir {errexit dir world flow after} :
      (errexit = true → (site.outcome world.clock).code = 0) →
      Run book (.items dir (book.depend dir)) (world.record (.called dir "botbrew_import")).tick
        flow after →
      Run book (.botbrew_import errexit dir) world (Script.called errexit flow)
        (after.afterCall dir "botbrew_import" flow)
  | all_imported {dir world} : Run book (.items dir []) world (.done 0) world
  | imported {dir world item rest flow after} :
      (world.tree dir (importMark item)).isSome →
      Run book (.items dir rest) world flow after →
      Run book (.items dir (item :: rest)) world flow after
  | no_directory {dir world item rest} :
      world.tree dir (importMark item) = none → site.isDir (site.itemDir item) = false →
      Run book (.items dir (item :: rest)) world (.ret 1) world
  | build_failed {dir world item rest code middle} :
      world.tree dir (importMark item) = none → site.isDir (site.itemDir item) →
      Run book (.recipe false (site.itemDir item)) world (.done code) middle → code ≠ 0 →
      Run book (.items dir (item :: rest)) world (.ret 1) middle
  | copy_failed {dir world item rest middle} :
      world.tree dir (importMark item) = none → site.isDir (site.itemDir item) →
      Run book (.recipe false (site.itemDir item)) world (.done 0) middle →
      (site.outcome middle.clock).code ≠ 0 →
      Run book (.items dir (item :: rest)) world (.ret 1) (middle.afterCopy site dir item)
  | mark_failed {dir world item rest middle} :
      world.tree dir (importMark item) = none → site.isDir (site.itemDir item) →
      Run book (.recipe false (site.itemDir item)) world (.done 0) middle →
      (site.outcome middle.clock).code = 0 →
      (site.outcome (middle.afterCopy site dir item).clock).code ≠ 0 →
      Run book (.items dir (item :: rest)) world (.ret 1)
        ((middle.afterCopy site dir item).afterMark site dir item)
  | import_item {dir world item rest middle flow after} :
      world.tree dir (importMark item) = none → site.isDir (site.itemDir item) →
      Run book (.recipe false (site.itemDir item)) world (.done 0) middle →
      (site.outcome middle.clock).code = 0 →
      (site.outcome (middle.afterCopy site dir item).clock).code = 0 →
      Run book (.items dir rest) ((middle.afterCopy site dir item).afterMark site dir item)
        flow after →
      Run book (.items dir (item :: rest)) world flow after

/-! A cookbook of two plain recipes, `app` and the `lib` it needs -/

/-- `make install`, which may fail behind a file it has installed -/
def makeInstall : Effect where
  run _ outcome tree path :=
    if path = ["export", "lib"] ∧ (outcome.code = 0 ∨ outcome.progress path) then some "lib" else tree path
  keeps_marks _ outcome tree path mark := by
    rcases mark with rfl | ⟨item, rfl⟩ <;> simp [exportMark, importMark]

def libRecipe : Recipe :=
  [.define "botbrew_do_build" (.body (buildBody [.botbrew_import, .external false makeInstall]))]

def appRecipe : Recipe :=
  [.assign "PACKAGE_DEPEND" fun _ _ => ["lib"],
    .define "botbrew_do_build" (.body (buildBody [.botbrew_import]))]

def libDir : Dir := ["/home", "cookbook", "lib"]

def appDir : Dir := ["/home", "cookbook", "app"]

def twoRecipes (outcome : Nat → Outcome) : Site where
  root := "/home"
  settings _ := []
  helpers _ := none
  recipe dir file :=
    if file = "recipe" then
      if dir = libDir then some libRecipe else if dir = appDir then some appRecipe else none
    else none
  isDir dir := dir == libDir || dir == appDir
  packages _ := []
  make_clean _ _ tree := tree
  outcome := outcome

def succeeds (_ : Nat) : Outcome := { code := 0, progress _ := true }

theorem libRecipe_plain : libRecipe.Plain [] [.botbrew_import, .external false makeInstall] where
  depend_eq _ _ unset := unset
  vars_eq _ _ _ _ := rfl
  build_eq _ env := by simp [Recipe.source, libRecipe, Statement.source, Env.define]
  funs_eq _ env name other := by
    simp [Recipe.source, libRecipe, Statement.source, Env.define, other]

theorem appRecipe_plain : appRecipe.Plain ["lib"] [.botbrew_import] where
  depend_eq _ env _ := by simp [Recipe.source, appRecipe, Statement.source, Env.define, Env.set]
  vars_eq _ env name member := by
    have other : name ≠ "PACKAGE_DEPEND" := by
      revert name
      decide
    simp [Recipe.source, appRecipe, Statement.source, Env.define, Env.set, other]
  build_eq _ env := by simp [Recipe.source, appRecipe, Statement.source, Env.define]
  funs_eq _ env name other := by
    simp [Recipe.source, appRecipe, Statement.source, Env.define, Env.set, other]

def twoPlain (outcome : Nat → Outcome) : PlainBook (twoRecipes outcome) where
  depend dir := if dir = appDir then ["lib"] else []
  steps dir :=
    if dir = appDir then [.botbrew_import] else [.botbrew_import, .external false makeInstall]
  plain dir recipe found := by
    by_cases lib : dir = libDir
    · subst lib
      obtain rfl : libRecipe = recipe := by simpa [twoRecipes] using found
      exact libRecipe_plain
    · by_cases app : dir = appDir
      · subst app
        obtain rfl : appRecipe = recipe := by simpa [twoRecipes, lib] using found
        exact appRecipe_plain
      · simp [twoRecipes, lib, app] at found

theorem twoPlain_lists {outcome : Nat → Outcome} {dep dir : Dir}
    (listed : (twoPlain outcome).Lists dep dir) : dep = libDir ∧ dir = appDir := by
  obtain ⟨_, item, member, rfl⟩ := listed
  by_cases app : dir = appDir
  · obtain rfl : item = "lib" := by simpa [twoPlain, app] using member
    exact ⟨rfl, app⟩
  · simp [twoPlain, app] at member

theorem twoPlain_acyclic (outcome : Nat → Outcome) : (twoPlain outcome).FiniteAcyclic where
  finite := by
    refine Set.Finite.subset (Set.toFinite {libDir, appDir}) fun dir present => ?_
    by_contra other
    simp only [Set.mem_insert_iff, Set.mem_singleton_iff, not_or] at other
    simp [Site.HasRecipe, twoRecipes, other.1, other.2] at present
  acyclic dir cycle := by
    obtain ⟨_, needed, _⟩ := Relation.TransGen.head'_iff.mp cycle
    obtain ⟨_, _, needing⟩ := Relation.TransGen.tail'_iff.mp cycle
    have lib : dir = libDir := (twoPlain_lists needed).1
    have app : dir = appDir := (twoPlain_lists needing).2
    exact absurd (lib.symm.trans app) (by decide)

end BotBrew.Cookbook
