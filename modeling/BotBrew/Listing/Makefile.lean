import BotBrew.Make.Basic
import BotBrew.Listing.Recipes

/-! `botbrew_makefile`, and what it has in common with the recursive build. -/

set_option autoImplicit false

namespace BotBrew.Listing

/-- `cd ${G_ROOT}/<dir>; ${G_ROOT}/botbrew recipe <action>` -/
structure RecipeCommand where
  dir : Text
  action : Text
  deriving DecidableEq

abbrev Makefile := Make.Makefile Text RecipeCommand

/-- `DIR=$(dirname ${item})` -/
def Recipe.DIR (recipe : Recipe) : Text := "cookbook/".toList ++ recipe.address

/-- The file of the recipe below `${G_ROOT}`. -/
def Recipe.item (recipe : Recipe) : Text := recipe.DIR ++ "/recipe".toList

/-- `${G_ROOT}/${item}/${G_EXPORT}/.d` -/
def Recipe.buildTarget (root : Text) (recipe : Recipe) : Text :=
  root ++ '/' :: recipe.item ++ "/export/.d".toList

def Recipe.command (root : Text) (recipe : Recipe) (action : Text) : RecipeCommand :=
  { dir := root ++ '/' :: recipe.DIR, action := action }

def Recipe.phony (recipe : Recipe) : List Text :=
  [recipe.name, "package-".toList ++ recipe.name, "clean-".toList ++ recipe.name,
    "distclean-".toList ++ recipe.name, "clobber-".toList ++ recipe.name]

/-- What is printed for a recipe, in this order. -/
def Recipe.rules (root : Text) (vars : Vars) (recipe : Recipe) :
    List (Make.Rule Text RecipeCommand) :=
  [{ target := recipe.buildTarget root, prerequisites := vars.PACKAGE_DEPEND, commands := [] },
    { target := recipe.name, prerequisites := [recipe.buildTarget root], commands := [] },
    { target := "package-".toList ++ recipe.name, prerequisites := [recipe.name],
      commands := [recipe.command root "package".toList] },
    { target := "clean-".toList ++ recipe.name, prerequisites := [],
      commands := [recipe.command root "clean".toList] },
    { target := "distclean-".toList ++ recipe.name, prerequisites := [],
      commands := [recipe.command root "distclean".toList] },
    { target := "clobber-".toList ++ recipe.name, prerequisites := [],
      commands := [recipe.command root "clobber".toList] },
    { target := recipe.buildTarget root, prerequisites := [],
      commands := [recipe.command root "build".toList] }]

/-- The loop over the recipes, which are sourced in one shell. -/
def rulesFrom (root : Text) (vars : Vars) : List Recipe → List (Make.Rule Text RecipeCommand)
  | [] => []
  | recipe :: rest =>
      let vars := recipe.source vars
      recipe.rules root vars ++ rulesFrom root vars rest

def botbrew_makefile (root : Text) (book : Cookbook) : Makefile :=
  { phony := ["all".toList, "build-all".toList, "package-all".toList] ++
      book.recipes.flatMap Recipe.phony
    rules :=
      [{ target := "all".toList, prerequisites := ["build-all".toList], commands := [] }] ++
        rulesFrom root .unset book.recipes ++
        [{ target := "build-all".toList, prerequisites := book.recipes.map Recipe.name,
           commands := [] },
          { target := "package-all".toList,
            prerequisites := book.recipes.map fun recipe => "package-".toList ++ recipe.name,
            commands := [] }] }

/-- The file that a build in the recipe's directory creates: its `export/.d`. -/
def Recipe.marker (root : Text) (recipe : Recipe) : Text :=
  root ++ '/' :: recipe.DIR ++ "/export/.d".toList

/-- `botbrew_import` of the first recipe, sourced with its variables set back, goes to the
directory of the second one. -/
def Cookbook.Imports (book : Cookbook) (recipe other : Recipe) : Prop :=
  recipe ∈ book.recipes ∧ other ∈ book.recipes ∧ other.address ∈ recipe.own

/-- The makefile and the recursive build follow the same dependencies. -/
structure SameRelation (root : Text) (book : Cookbook) : Prop where
  marker : ∀ recipe ∈ book.recipes, ∀ target,
    Make.Runs (botbrew_makefile root book) target (recipe.command root "build".toList) ↔
      target = recipe.marker root
  requires : ∀ recipe ∈ book.recipes, ∀ other ∈ book.recipes,
    Relation.TransGen (Make.Requires (botbrew_makefile root book)) (recipe.marker root)
        (other.marker root) ↔
      Relation.TransGen book.Imports recipe other
  ordered : ∀ present goal log, Make.Order (botbrew_makefile root book) present goal log →
    ∀ recipe other, Relation.TransGen book.Imports recipe other →
      ∀ before rest, log = before ++ recipe.marker root :: rest →
        other.marker root ∈ before ∨ present (other.marker root)
  once : ∀ present goal log, Make.Order (botbrew_makefile root book) present goal log →
    ∀ recipe ∈ book.recipes, present (recipe.marker root) →
      (∀ other, Relation.TransGen book.Imports recipe other → present (other.marker root)) →
        recipe.marker root ∉ log

end BotBrew.Listing
