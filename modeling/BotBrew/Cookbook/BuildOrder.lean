import BotBrew.Cookbook.RunProperties

/-! What a build does when nothing fails: which recipes it builds, how often,
and in which order. -/

set_option autoImplicit false

namespace BotBrew.Cookbook

open Shell

variable {site : Site}

/-- The least set of recipes that a build of `goal` has to build. -/
inductive PlainBook.Needed (book : PlainBook site) (start : Dir → Tree) (goal : Dir) : Dir → Prop where
  | goal : start goal exportMark = none → Needed book start goal goal
  | listed {dir item} : Needed book start goal dir → item ∈ book.depend dir →
      start dir (importMark item) = none → start (site.itemDir item) exportMark = none →
      Needed book start goal (site.itemDir item)

/-- Every recipe imports its dependencies, and they are all there. -/
structure PlainBook.Complete (book : PlainBook site) : Prop where
  imports : ∀ dir, site.HasRecipe dir → .botbrew_import ∈ book.steps dir
  found : ∀ dep dir, book.Lists dep dir → site.isDir dep ∧ site.HasRecipe dep

def ownLog (dir : Dir) (log : List Event) : List Event := log.filter fun event => event.dir = dir

def Event.begins : Event → Bool
  | .called _ name => name == "botbrew_do_build"
  | _ => false

def Event.ends : Event → Bool
  | .returned _ name _ => name == "botbrew_do_build"
  | _ => false

def begun (dir : Dir) (log : List Event) : Nat := (ownLog dir log).countP Event.begins

def ended (dir : Dir) (log : List Event) : Nat := (ownLog dir log).countP Event.ends

/-- An import tree holds what was copied into it. Of two dependencies with a
file of the same path the one that is listed later wins. -/
def Merged (depend : List String) (dir : Dir) (log : List Event) (tree : Tree) : Prop :=
  ∀ first rest, visible first → ∀ item exported file,
    .copied dir item exported ∈ log → exported ("export" :: first :: rest) = some file →
    (∀ later exported', .copied dir later exported' ∈ log →
      depend.idxOf item < depend.idxOf later → exported' ("export" :: first :: rest) = none) →
    tree ("import" :: first :: rest) = some file

/-- What an event says about the order of builds, given the events before it. -/
def Event.InOrder (book : PlainBook site) (earlier : List Event) : Event → Prop
  | .copied _ item exported =>
      (exported exportMark).isSome ∧
        begun (site.itemDir item) earlier = ended (site.itemDir item) earlier
  | .returned dir name tree =>
      name = "botbrew_import" → (∀ tree', .returned dir name tree' ∉ earlier) →
        Merged (book.depend dir) dir earlier tree
  | _ => True

def LogInOrder (book : PlainBook site) (log : List Event) : Prop :=
  ∀ event earlier, event :: earlier <:+ log → event.InOrder book earlier

theorem LogInOrder.cons {book : PlainBook site} {log : List Event} (inOrder : LogInOrder book log)
    {event : Event} (fits : event.InOrder book log) : LogInOrder book (event :: log) := by
  intro event' earlier suffix
  rcases List.suffix_cons_iff.mp suffix with same | suffix
  · obtain ⟨rfl, rfl⟩ := List.cons.inj same
    exact fits
  · exact inOrder event' earlier suffix

/-! Events of other recipes -/

@[simp] theorem ownLog_cons_self (event : Event) (log : List Event) :
    ownLog event.dir (event :: log) = event :: ownLog event.dir log := by
  simp [ownLog]

theorem ownLog_cons_of_ne {event : Event} {dir : Dir} (other : event.dir ≠ dir)
    (log : List Event) : ownLog dir (event :: log) = ownLog dir log := by
  simp [ownLog, other]

theorem mem_ownLog {event : Event} {log : List Event} :
    event ∈ ownLog event.dir log ↔ event ∈ log := by
  simp [ownLog]

structure Apart (dir : Dir) (world after : World) : Prop where
  log : ownLog dir after.log = ownLog dir world.log
  tree : after.tree dir = world.tree dir

namespace Apart

variable {dir other : Dir} {world middle after : World}

theorem refl (dir : Dir) (world : World) : Apart dir world world := ⟨rfl, rfl⟩

theorem trans (first : Apart dir world middle) (second : Apart dir middle after) :
    Apart dir world after :=
  ⟨second.log.trans first.log, second.tree.trans first.tree⟩

theorem record {event : Event} (elsewhere : dir ≠ other) (there : event.dir = other)
    (world : World) : Apart dir world (world.record event) :=
  ⟨ownLog_cons_of_ne (there ▸ elsewhere.symm) world.log, rfl⟩

theorem update (elsewhere : dir ≠ other) (change : Tree → Tree) (world : World) :
    Apart dir world (world.tick.update other change) :=
  ⟨rfl, by rw [World.update_tree_of_ne elsewhere, World.tick_tree]⟩

theorem of_within {book : PlainBook site} (within : Within book other world after)
    (outside : ¬ book.Reaches other dir) : Apart dir world after := by
  obtain ⟨recent, log, dirs⟩ := within.log
  refine ⟨?_, within.frame dir outside⟩
  have none : recent.filter (fun event => event.dir = dir) = [] := by
    rw [List.filter_eq_nil_iff]
    intro event member same
    exact outside (of_decide_eq_true same ▸ dirs event member)
  simp [ownLog, log, none]

theorem begun (apart : Apart dir world after) : begun dir after.log = begun dir world.log := by
  unfold BotBrew.Cookbook.begun
  rw [apart.log]

theorem ended (apart : Apart dir world after) : ended dir after.log = ended dir world.log := by
  unfold BotBrew.Cookbook.ended
  rw [apart.log]

theorem mem_log (apart : Apart dir world after) {event : Event} (here : event.dir = dir) :
    event ∈ after.log ↔ event ∈ world.log := by
  subst here
  rw [← mem_ownLog, apart.log, mem_ownLog]

theorem afterExternal (elsewhere : dir ≠ other) (guarded : Bool) (effect : Effect) (vars : Vars)
    (world : World) : Apart dir world (world.afterExternal site other guarded effect vars) :=
  (update elsewhere _ world).trans (.record elsewhere (by rfl) _)

theorem afterTouch (elsewhere : dir ≠ other) (world : World) :
    Apart dir world (world.afterTouch site other) :=
  ((update elsewhere _ world).trans (.record elsewhere (by rfl) _)).trans (.record elsewhere (by rfl) _)

theorem afterCopy (elsewhere : dir ≠ other) (item : String) (world : World) :
    Apart dir world (world.afterCopy site other item) := by
  unfold World.afterCopy
  split
  · exact (update elsewhere _ world).trans (.record elsewhere (by rfl) _)
  · exact update elsewhere _ world

theorem afterMark (elsewhere : dir ≠ other) (item : String) (world : World) :
    Apart dir world (world.afterMark site other item) :=
  update elsewhere _ world

end Apart

end BotBrew.Cookbook
