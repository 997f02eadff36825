import Mathlib.Data.List.Nodup
import BotBrew.Text.Lines

/-! The recipes of a cookbook, as the listing commands of `botbrew` read them: one
after another, in one shell. -/

set_option autoImplicit false

namespace BotBrew.Listing

/-- A recipe file at `cookbook/<name>/recipe` or `cookbook/<parent>/<name>/recipe`, and what it
assigns, if it does. -/
structure Recipe where
  parent : Option Text
  name : Text
  version : Option Text
  depend : Option (List Text)
  name_free : '/' ∉ name

/-- The name that `PACKAGE_DEPEND` has for a recipe: its directory below the cookbook. -/
def Recipe.address (recipe : Recipe) : Text :=
  match recipe.parent with
  | none => recipe.name
  | some parent => parent ++ '/' :: recipe.name

/-- The recipes in the order in which the two patterns of the loop give them. -/
structure Cookbook where
  recipes : List Recipe
  distinct : (recipes.map Recipe.address).Nodup

structure Vars where
  PACKAGE_VERSION : Text
  PACKAGE_DEPEND : List Text

/-- The variables as `botbrew` starts, and as `botbrew_recipe` sets them back. -/
def Vars.unset : Vars := { PACKAGE_VERSION := [], PACKAGE_DEPEND := [] }

/-- `. "${item}"` -/
def Recipe.source (recipe : Recipe) (vars : Vars) : Vars :=
  { PACKAGE_VERSION := recipe.version.getD vars.PACKAGE_VERSION
    PACKAGE_DEPEND := recipe.depend.getD vars.PACKAGE_DEPEND }

/-- The dependencies of a recipe that is sourced with its variables set back. -/
def Recipe.own (recipe : Recipe) : List Text := (recipe.source .unset).PACKAGE_DEPEND

/-- What `PACKAGE_DEPEND` holds once the recipes are sourced. -/
def leaked (recipes : List Recipe) : List Text :=
  (recipes.filterMap Recipe.depend).getLastD []

def sourceAll (vars : Vars) (recipes : List Recipe) : Vars :=
  recipes.foldl (fun vars recipe => recipe.source vars) vars

theorem sourceAll_depend (vars : Vars) (recipes : List Recipe) :
    (sourceAll vars recipes).PACKAGE_DEPEND =
      (recipes.filterMap Recipe.depend).getLastD vars.PACKAGE_DEPEND := by
  induction recipes generalizing vars with
  | nil => rfl
  | cons recipe rest ih =>
      have tail := ih (recipe.source vars)
      cases given : recipe.depend with
      | none =>
          rw [List.filterMap_cons_none given]
          simpa [sourceAll, Recipe.source, given] using tail
      | some depend =>
          rw [List.filterMap_cons_some given, List.getLastD_cons]
          simpa [sourceAll, Recipe.source, given] using tail

theorem Recipe.own_none {recipe : Recipe} (given : recipe.depend = none) : recipe.own = [] := by
  simp [own, source, given, Vars.unset]

theorem Recipe.own_some {recipe : Recipe} {depend : List Text} (given : recipe.depend = some depend) :
    recipe.own = depend := by
  simp [own, source, given]

theorem Cookbook.unique (book : Cookbook) {first second : Recipe} (firstListed : first ∈ book.recipes)
    (secondListed : second ∈ book.recipes) (same : first.address = second.address) :
    first = second :=
  List.inj_on_of_nodup_map book.distinct firstListed secondListed same

end BotBrew.Listing
