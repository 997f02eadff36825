import BotBrew.Listing.Makefile

/-! The generated makefile builds no marker file of any recipe. -/

set_option autoImplicit false

namespace BotBrew.Listing

theorem build_mem_rulesFrom (root : Text) (vars : Vars) {recipes : List Recipe} {recipe : Recipe}
    (listed : recipe ∈ recipes) :
    { target := recipe.buildTarget root, prerequisites := [],
      commands := [recipe.command root "build".toList] } ∈ rulesFrom root vars recipes := by
  induction recipes generalizing vars with
  | nil => cases listed
  | cons first rest ih =>
      rw [rulesFrom]
      obtain rfl | later := List.mem_cons.mp listed
      · apply List.mem_append_left
        simp [Recipe.rules]
      · exact List.mem_append_right _ (ih (first.source vars) later)

theorem runs_build (root : Text) (book : Cookbook) {recipe : Recipe}
    (listed : recipe ∈ book.recipes) :
    Make.Runs (botbrew_makefile root book) (recipe.buildTarget root)
      (recipe.command root "build".toList) := by
  have printed := build_mem_rulesFrom root .unset listed
  exact ⟨_, List.mem_append_left _ (List.mem_append_right _ printed), rfl,
    List.mem_singleton.mpr rfl⟩

theorem buildTarget_ne_marker (root : Text) (recipe : Recipe) :
    recipe.buildTarget root ≠ recipe.marker root := by
  intro same
  have length := congrArg List.length same
  simp [Recipe.buildTarget, Recipe.marker, Recipe.item] at length

theorem botbrew_makefile_sameRelation (root : Text) (book : Cookbook) :
    SameRelation root book ↔ book.recipes = [] := by
  constructor
  · intro same
    apply List.eq_nil_iff_forall_not_mem.mpr
    intro recipe listed
    have target := (same.marker recipe listed _).mp (runs_build root book listed)
    exact buildTarget_ne_marker root recipe target
  · intro empty
    have noImport : ∀ recipe other, ¬ Relation.TransGen book.Imports recipe other := by
      intro recipe other path
      obtain ⟨next, first, -⟩ := Relation.TransGen.head'_iff.mp path
      rw [Cookbook.Imports, empty] at first
      cases first.1
    have noRecipe : ∀ recipe, recipe ∉ book.recipes := by
      intro recipe
      rw [empty]
      exact List.not_mem_nil
    constructor
    · exact fun recipe listed => absurd listed (noRecipe recipe)
    · exact fun recipe listed => absurd listed (noRecipe recipe)
    · exact fun _ _ _ _ recipe other path => absurd path (noImport recipe other)
    · exact fun _ _ _ _ recipe listed => absurd listed (noRecipe recipe)

def hello : Cookbook where
  recipes := [{ parent := none, name := "hello".toList, version := some "1.0".toList,
                depend := some [], name_free := by decide }]
  distinct := by decide

theorem botbrew_makefile_hello : ¬ SameRelation "/home/botbrew".toList hello := by
  intro same
  have target := (same.marker _ (List.mem_singleton.mpr rfl) _).mp
    (runs_build "/home/botbrew".toList hello (List.mem_singleton.mpr rfl))
  exact buildTarget_ne_marker _ _ target

end BotBrew.Listing
