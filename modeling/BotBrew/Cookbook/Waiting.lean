import BotBrew.Cookbook.RunProperties

/-! Recipes that wait for each other: each is importing the next. A recipe that waits for
itself is built forever, so a build that ends leaves the recipes that wait for it alone, in
any cookbook. -/

set_option autoImplicit false

namespace BotBrew.Cookbook

open Shell

variable {site : Site} {book : PlainBook site}

/-! Markers -/

def SameMarks (dir : Dir) (world after : World) : Prop :=
  ∀ path, IsMark path → after.tree dir path = world.tree dir path

theorem SameMarks.trans {dir : Dir} {world middle after : World} (first : SameMarks dir world middle)
    (second : SameMarks dir middle after) : SameMarks dir world after :=
  fun path mark => (second path mark).trans (first path mark)

section

variable {dir : Dir} (world : World)

theorem sameMarks_update {other : Dir} (change : Tree → Tree)
    (keeps : other = dir → ∀ path, IsMark path → change (world.tree dir) path = world.tree dir path) :
    SameMarks other world (world.tick.update dir change) := by
  intro path mark
  by_cases same : other = dir
  · subst same
    rw [World.update_tree_self, World.tick_tree]
    exact keeps rfl path mark
  · rw [World.update_tree_of_ne same, World.tick_tree]

theorem sameMarks_afterExternal (other : Dir) (guarded : Bool) (effect : Effect) (vars : Vars) :
    SameMarks other world (world.afterExternal site dir guarded effect vars) :=
  sameMarks_update world _ fun _ _ mark => effect.keeps_marks _ _ _ _ mark

theorem sameMarks_afterTouch {other : Dir} (different : other ≠ dir) :
    SameMarks other world (world.afterTouch site dir) :=
  sameMarks_update world _ fun same => absurd same different

theorem sameMarks_afterCopy (other : Dir) (item : String) :
    SameMarks other world (world.afterCopy site dir item) := by
  have copied : SameMarks other world (world.tick.update dir
      (copyTree "export" "import" (site.outcome world.clock) (world.tree (site.itemDir item)))) :=
    sameMarks_update world _ fun _ _ mark => copyTree_mark _ _ _ _ _ mark
  unfold World.afterCopy
  split
  · exact copied
  · exact copied

theorem sameMarks_afterMark {other : Dir} (different : other ≠ dir) (item : String) :
    SameMarks other world (world.afterMark site dir item) :=
  sameMarks_update world _ fun same => absurd same different

theorem sameMarks_afterCall (other : Dir) (name : String) (flow : Flow) :
    SameMarks other world (world.afterCall dir name flow) := by
  intro path _
  cases flow <;> rfl

end

/-! Waiting -/

def firstMissing (world : World) (dir : Dir) (items : List String) : Option String :=
  items.find? fun item => (world.tree dir (importMark item)).isNone

/-- `upper` is not built, and `lower` is the recipe that it has to import next. -/
structure Waits (book : PlainBook site) (world : World) (upper lower : Dir) : Prop where
  present : site.HasRecipe upper
  unbuilt : world.tree upper exportMark = none
  imports : .botbrew_import ∈ book.steps upper
  next : ∃ item, firstMissing world upper (book.depend upper) = some item ∧
    site.isDir (site.itemDir item) ∧ lower = site.itemDir item

theorem firstMissing_congr {dir : Dir} {world after : World} (same : SameMarks dir world after)
    (items : List String) : firstMissing after dir items = firstMissing world dir items := by
  have each : (fun item => (after.tree dir (importMark item)).isNone) =
      fun item => (world.tree dir (importMark item)).isNone :=
    funext fun item => congrArg Option.isNone (same _ (isMark_import item))
  rw [firstMissing, each, firstMissing]

theorem Waits.congr {upper lower : Dir} {world after : World} (waits : Waits book world upper lower)
    (same : SameMarks upper world after) : Waits book after upper lower where
  present := waits.present
  unbuilt := (same _ isMark_export).trans waits.unbuilt
  imports := waits.imports
  next := by
    rw [firstMissing_congr same]
    exact waits.next

theorem firstMissing_marked {dir : Dir} {world : World} {item : String} (rest : List String)
    (marked : (world.tree dir (importMark item)).isSome) :
    firstMissing world dir (item :: rest) = firstMissing world dir rest := by
  rw [firstMissing, List.find?_cons_of_neg (by simpa using Option.isSome_iff_ne_none.mp marked), firstMissing]

theorem firstMissing_unmarked {dir : Dir} {world : World} {item : String} (rest : List String)
    (unmarked : world.tree dir (importMark item) = none) :
    firstMissing world dir (item :: rest) = some item := by
  simp [firstMissing, unmarked]

/-- Each of the recipes waits for another one of them, or for itself. -/
def Endless (book : PlainBook site) (world : World) (dirs : Set Dir) : Prop :=
  ∀ upper ∈ dirs, ∃ lower ∈ dirs, Waits book world upper lower

theorem Endless.congr {world after : World} {dirs : Set Dir} (endless : Endless book world dirs)
    (same : ∀ dir ∈ dirs, SameMarks dir world after) : Endless book after dirs := by
  intro upper member
  obtain ⟨lower, inside, waits⟩ := endless upper member
  exact ⟨lower, inside, waits.congr (same upper member)⟩

/-- A task that ends without errexit is none that has to wait for the recipes. -/
def Task.Avoids (site : Site) (dirs : Set Dir) (world : World) : Task → Prop
  | .recipe errexit dir | .botbrew_import errexit dir => errexit = false → dir ∉ dirs
  | .steps errexit dir rest => errexit = false → dir ∈ dirs → .botbrew_import ∉ rest
  | .items dir rest => dir ∈ dirs → ∀ item, firstMissing world dir rest = some item →
      site.isDir (site.itemDir item) → site.itemDir item ∉ dirs

theorem avoids_unmarked {dirs : Set Dir} {dir : Dir} {item : String} {world : World} (rest : List String)
    (unmarked : world.tree dir (importMark item) = none) (outside : site.itemDir item ∉ dirs) :
    (Task.items dir (item :: rest)).Avoids site dirs world := by
  intro _ other first _
  rw [firstMissing_unmarked rest unmarked] at first
  obtain rfl := Option.some.inj first
  exact outside

theorem Run.avoids {task : Task} {world after : World} {flow : Flow}
    (run : Run book task world flow after) {dirs : Set Dir} (endless : Endless book world dirs) :
    task.Avoids site dirs world ∧ (task.dir ∉ dirs → ∀ dir ∈ dirs, SameMarks dir world after) := by
  have elsewhere : ∀ {dir other : Dir}, dir ∉ dirs → other ∈ dirs → other ≠ dir :=
    fun outside inside same => outside (same ▸ inside)
  induction run with
  | missing absent =>
      refine ⟨fun _ inside => ?_, fun _ _ _ _ _ => rfl⟩
      obtain ⟨_, _, waits⟩ := endless _ inside
      have present := waits.present
      simp [Site.HasRecipe, absent] at present
  | built _ built =>
      refine ⟨fun _ inside => ?_, fun _ _ _ _ _ => rfl⟩
      obtain ⟨_, _, waits⟩ := endless _ inside
      simp [waits.unbuilt] at built
  | build _ _ _ ih =>
      obtain ⟨avoids, same⟩ := ih (endless.congr fun _ _ _ _ => rfl)
      refine ⟨fun ignored inside => ?_, fun outside dir member => ?_⟩
      · obtain ⟨_, _, waits⟩ := endless _ inside
        exact avoids ignored inside waits.imports
      · exact (same outside dir member).trans (sameMarks_afterCall _ _ _ _)
  | touch =>
      refine ⟨fun _ _ member => (by cases member), fun outside dir member => ?_⟩
      exact sameMarks_afterTouch _ (elsewhere outside member)
  | external_exit =>
      exact ⟨fun effective => (by cases effective), fun _ _ _ => sameMarks_afterExternal _ _ _ _ _⟩
  | @external _ dir world guarded effect vars _ _ _ _ _ ih =>
      have kept : ∀ other ∈ dirs, SameMarks other world (world.afterExternal site dir guarded effect vars) :=
        fun other _ => sameMarks_afterExternal world other guarded effect vars
      obtain ⟨avoids, same⟩ := ih (endless.congr kept)
      refine ⟨fun ignored inside member => ?_, fun outside dir member => ?_⟩
      · exact avoids ignored inside (List.mem_of_ne_of_mem (by simp) member)
      · exact (kept dir member).trans (same outside dir member)
  | import_exit _ ih =>
      obtain ⟨avoids, same⟩ := ih endless
      exact ⟨fun ignored inside => absurd inside (avoids ignored), same⟩
  | importing _ _ importIH restIH =>
      obtain ⟨avoids, same⟩ := importIH endless
      refine ⟨fun ignored inside => absurd inside (avoids ignored), fun outside dir member => ?_⟩
      have kept := same outside
      exact (kept dir member).trans ((restIH (endless.congr kept)).2 outside dir member)
  | mkdir_exit => exact ⟨fun effective => (by cases effective), fun _ _ _ _ _ => rfl⟩
  | mkdir _ _ ih =>
      obtain ⟨avoids, same⟩ := ih (endless.congr fun _ _ _ _ => rfl)
      refine ⟨fun _ inside => ?_, fun outside dir member => ?_⟩
      · obtain ⟨lower, below, waits⟩ := endless _ inside
        obtain ⟨item, missing, isDir, rfl⟩ := waits.next
        exact avoids inside item missing isDir below
      · exact (same outside dir member).trans (sameMarks_afterCall _ _ _ _)
  | all_imported => exact ⟨fun _ _ missing => (by cases missing), fun _ _ _ _ _ => rfl⟩
  | imported marked _ ih =>
      obtain ⟨avoids, same⟩ := ih endless
      refine ⟨fun inside => ?_, same⟩
      rw [firstMissing_marked _ marked]
      exact avoids inside
  | no_directory unmarked missing =>
      refine ⟨fun _ item first isDir => ?_, fun _ _ _ _ _ => rfl⟩
      rw [firstMissing_unmarked _ unmarked] at first
      obtain rfl := Option.some.inj first
      simp [missing] at isDir
  | build_failed unmarked _ _ _ ih =>
      obtain ⟨avoids, same⟩ := ih endless
      exact ⟨avoids_unmarked _ unmarked (avoids rfl), fun _ => same (avoids rfl)⟩
  | copy_failed unmarked _ _ _ ih =>
      obtain ⟨avoids, same⟩ := ih endless
      refine ⟨avoids_unmarked _ unmarked (avoids rfl), fun _ dir member => ?_⟩
      exact (same (avoids rfl) dir member).trans (sameMarks_afterCopy _ _ _)
  | mark_failed unmarked _ _ _ _ ih =>
      obtain ⟨avoids, same⟩ := ih endless
      refine ⟨avoids_unmarked _ unmarked (avoids rfl), fun outside dir member => ?_⟩
      exact ((same (avoids rfl) dir member).trans (sameMarks_afterCopy _ _ _)).trans
        (sameMarks_afterMark _ (elsewhere outside member) _)
  | @import_item dir world item _ middle _ _ unmarked _ _ _ _ _ buildIH restIH =>
      obtain ⟨avoids, same⟩ := buildIH endless
      refine ⟨avoids_unmarked _ unmarked (avoids rfl), fun outside other member => ?_⟩
      have kept : ∀ other ∈ dirs, SameMarks other world ((middle.afterCopy site dir item).afterMark site dir item) :=
        fun other member => ((same (avoids rfl) other member).trans (sameMarks_afterCopy _ _ _)).trans
          (sameMarks_afterMark _ (elsewhere outside member) _)
      exact (kept other member).trans ((restIH (endless.congr kept)).2 outside other member)

/-! Recipes above -/

def Event.ofBuild (dir : Dir) : Event → Prop
  | .called other name => other = dir ∧ name = "botbrew_do_build"
  | .ran other _ _ | .touched other _ => other = dir
  | _ => False

def Quiet (dir : Dir) (world after : World) : Prop :=
  ∃ recent, after.log = recent ++ world.log ∧ ∀ event ∈ recent, ¬event.ofBuild dir

namespace Quiet

variable {dir other : Dir} {world middle after : World}

theorem of_log (same : after.log = world.log) : Quiet dir world after := ⟨[], by simp [same], by simp⟩

theorem trans (first : Quiet dir world middle) (second : Quiet dir middle after) : Quiet dir world after := by
  obtain ⟨early, earlyLog, earlyQuiet⟩ := first
  obtain ⟨late, lateLog, lateQuiet⟩ := second
  refine ⟨late ++ early, by simp [earlyLog, lateLog], fun event member => ?_⟩
  cases List.mem_append.mp member with
  | inl member => exact lateQuiet event member
  | inr member => exact earlyQuiet event member

theorem record {event : Event} (other : ¬event.ofBuild dir) (world : World) :
    Quiet dir world (world.record event) :=
  ⟨[event], rfl, by simpa using other⟩

theorem mem_log (quiet : Quiet dir world after) {event : Event} (own : event.ofBuild dir)
    (member : event ∈ after.log) : event ∈ world.log := by
  obtain ⟨recent, log, quiet⟩ := quiet
  rw [log, List.mem_append] at member
  exact member.resolve_left fun recently => quiet event recently own

theorem afterExternal (different : other ≠ dir) (world : World) (guarded : Bool) (effect : Effect) (vars : Vars) :
    Quiet other world (world.afterExternal site dir guarded effect vars) := by
  have ran : ¬(Event.ran dir guarded (site.outcome world.clock).code).ofBuild other :=
    fun own => different (Eq.symm own)
  exact Quiet.trans (of_log rfl) (record ran _)

theorem afterTouch (different : other ≠ dir) (world : World) :
    Quiet other world (world.afterTouch site dir) := by
  have touched : ¬(Event.touched dir (site.outcome world.clock).code).ofBuild other :=
    fun own => different (Eq.symm own)
  have ran : ¬(Event.ran dir false (site.outcome world.clock).code).ofBuild other :=
    fun own => different (Eq.symm own)
  exact Quiet.trans (Quiet.trans (of_log rfl) (record touched _)) (record ran _)

theorem afterCopy (other : Dir) (world : World) (item : String) :
    Quiet other world (world.afterCopy site dir item) := by
  unfold World.afterCopy
  split
  · exact (of_log rfl).trans (record id _)
  · exact of_log rfl

theorem afterCall (other : Dir) (world : World) (name : String) (flow : Flow) :
    Quiet other world (world.afterCall dir name flow) := by
  cases flow with
  | exit code => exact of_log rfl
  | done code | ret code => exact record id _

end Quiet

structure Untouched (dir : Dir) (world after : World) : Prop where
  marks : SameMarks dir world after
  quiet : Quiet dir world after

namespace Untouched

variable {dir other : Dir} {world middle after : World}

theorem refl (dir : Dir) (world : World) : Untouched dir world world := ⟨fun _ _ => rfl, .of_log rfl⟩

theorem trans (first : Untouched dir world middle) (second : Untouched dir middle after) :
    Untouched dir world after :=
  ⟨first.marks.trans second.marks, first.quiet.trans second.quiet⟩

theorem record {event : Event} (other : ¬event.ofBuild dir) (world : World) :
    Untouched dir world (world.record event) :=
  ⟨fun _ _ => rfl, .record other world⟩

theorem tick (dir : Dir) (world : World) : Untouched dir world world.tick := ⟨fun _ _ => rfl, .of_log rfl⟩

theorem ran (different : other ≠ dir) (code : Status) (world : World) :
    Untouched other world (world.record (.ran dir false code)) := by
  have foreign : ¬(Event.ran dir false code).ofBuild other := fun own => different (Eq.symm own)
  exact record foreign world

theorem entered (other dir : Dir) (world : World) :
    Untouched other world (world.record (.called dir "botbrew_import")).tick := by
  have import_called : ¬(Event.called dir "botbrew_import").ofBuild other := by simp [Event.ofBuild]
  exact (record import_called world).trans (tick other _)

theorem afterExternal (different : other ≠ dir) (world : World) (guarded : Bool) (effect : Effect) (vars : Vars) :
    Untouched other world (world.afterExternal site dir guarded effect vars) :=
  ⟨sameMarks_afterExternal world other guarded effect vars, .afterExternal different world guarded effect vars⟩

theorem afterTouch (different : other ≠ dir) (world : World) :
    Untouched other world (world.afterTouch site dir) :=
  ⟨sameMarks_afterTouch world different, .afterTouch different world⟩

theorem afterCopy (other : Dir) (world : World) (item : String) :
    Untouched other world (world.afterCopy site dir item) :=
  ⟨sameMarks_afterCopy world other item, .afterCopy other world item⟩

theorem afterMark (different : other ≠ dir) (world : World) (item : String) :
    Untouched other world (world.afterMark site dir item) :=
  ⟨sameMarks_afterMark world different item, .of_log rfl⟩

theorem afterCall (other : Dir) (world : World) (name : String) (flow : Flow) :
    Untouched other world (world.afterCall dir name flow) :=
  ⟨sameMarks_afterCall world other name flow, .afterCall other world name flow⟩

end Untouched

/-- A recipe whose build is under way is not built, and imports what it lists, in order. -/
def Task.Underway (book : PlainBook site) (world : World) : Task → Prop
  | .recipe _ _ => True
  | .steps _ dir rest =>
      site.HasRecipe dir ∧ world.tree dir exportMark = none ∧ ∀ step ∈ rest, step ∈ book.steps dir
  | .botbrew_import _ dir =>
      site.HasRecipe dir ∧ world.tree dir exportMark = none ∧ .botbrew_import ∈ book.steps dir
  | .items dir rest =>
      site.HasRecipe dir ∧ world.tree dir exportMark = none ∧ .botbrew_import ∈ book.steps dir ∧
        ∃ before, book.depend dir = before ++ rest ∧
          ∀ other ∈ before, (world.tree dir (importMark other)).isSome

theorem Task.Underway.afterExternal {errexit guarded : Bool} {dir : Dir} {effect : Effect} {vars : Vars}
    {rest : List Step} {world : World}
    (ready : (Task.steps errexit dir (.external guarded effect :: rest)).Underway book world) :
    (Task.steps errexit dir rest).Underway book (world.afterExternal site dir guarded effect vars) := by
  obtain ⟨present, unbuilt, steps⟩ := ready
  refine ⟨present, ?_, fun step member => steps step (List.mem_cons_of_mem _ member)⟩
  rw [sameMarks_afterExternal world dir guarded effect vars _ isMark_export]
  exact unbuilt

def Task.Importing : Task → Prop
  | .botbrew_import _ _ | .items _ _ => True
  | _ => False

theorem firstMissing_append {dir : Dir} {world : World} {before : List String}
    (marked : ∀ other ∈ before, (world.tree dir (importMark other)).isSome) (rest : List String) :
    firstMissing world dir (before ++ rest) = firstMissing world dir rest := by
  induction before with
  | nil => rfl
  | cons item before ih =>
      rw [List.cons_append, firstMissing_marked _ (marked item (by simp))]
      exact ih fun other member => marked other (List.mem_cons_of_mem _ member)

theorem Task.Underway.waits {dir : Dir} {item : String} {rest : List String} {world : World}
    (ready : (Task.items dir (item :: rest)).Underway book world)
    (unmarked : world.tree dir (importMark item) = none) (isDir : site.isDir (site.itemDir item)) :
    Waits book world dir (site.itemDir item) := by
  obtain ⟨present, unbuilt, imports, before, split, marked⟩ := ready
  refine ⟨present, unbuilt, imports, item, ?_, isDir, rfl⟩
  rw [split, firstMissing_append marked, firstMissing_unmarked _ unmarked]

theorem Task.Underway.next {dir : Dir} {item : String} {rest : List String} {world after : World}
    (ready : (Task.items dir (item :: rest)).Underway book world)
    (same : after.tree dir exportMark = world.tree dir exportMark)
    (kept : ∀ other, (world.tree dir (importMark other)).isSome → (after.tree dir (importMark other)).isSome)
    (marked : (after.tree dir (importMark item)).isSome) : (Task.items dir rest).Underway book after := by
  obtain ⟨present, unbuilt, imports, before, split, earlier⟩ := ready
  refine ⟨present, same.trans unbuilt, imports, before ++ [item], by simp [split], fun other member => ?_⟩
  cases List.mem_append.mp member with
  | inl member => exact kept other (earlier other member)
  | inr here => exact List.mem_singleton.mp here ▸ marked

/-- All of these recipes wait for each other, and one or none of them for `dir`. -/
def Above (book : PlainBook site) (world : World) (dirs : Set Dir) (dir : Dir) : Prop :=
  dir ∉ dirs ∧ ∀ upper ∈ dirs, ∃ lower, Waits book world upper lower ∧ (lower ∈ dirs ∨ lower = dir)

theorem Above.none (book : PlainBook site) (world : World) (dir : Dir) : Above book world ∅ dir :=
  ⟨Set.notMem_empty dir, fun _ member => nomatch member⟩

theorem Above.congr {dirs : Set Dir} {dir : Dir} {world after : World} (above : Above book world dirs dir)
    (same : ∀ upper ∈ dirs, SameMarks upper world after) : Above book after dirs dir := by
  refine ⟨above.1, fun upper member => ?_⟩
  obtain ⟨lower, waits, inside⟩ := above.2 upper member
  exact ⟨lower, waits.congr (same upper member), inside⟩

/-- With the recipe that waits for `dep`, whose build ends, all recipes above it are above `dep`. -/
theorem Above.extend {dirs : Set Dir} {dir dep : Dir} {world after : World} {flow : Flow}
    (above : Above book world dirs dir) (waits : Waits book world dir dep)
    (run : Run book (.recipe false dep) world flow after) : Above book world (insert dir dirs) dep := by
  have each : ∀ upper ∈ insert dir dirs, ∃ lower, Waits book world upper lower ∧
      (lower ∈ insert dir dirs ∨ lower = dep) := by
    rintro upper (rfl | member)
    · exact ⟨dep, waits, .inr rfl⟩
    · obtain ⟨lower, waiting, below⟩ := above.2 upper member
      exact ⟨lower, waiting, .inl below.symm⟩
  refine ⟨fun inside => ?_, each⟩
  have endless : Endless book world (insert dir dirs) := by
    intro upper member
    obtain ⟨lower, waiting, below | same⟩ := each upper member
    · exact ⟨lower, below, waiting⟩
    · exact ⟨dep, inside, same ▸ waiting⟩
  exact (run.avoids endless).1 rfl inside

theorem afterMark_exportMark (world : World) (dir : Dir) (item : String) :
    (world.afterMark site dir item).tree dir exportMark = world.tree dir exportMark := by
  rw [World.afterMark, World.update_tree_self, World.tick_tree]
  split
  · exact touchPath_of_ne (exportMark_ne_importMark item) _
  · rfl

/-- A build neither begins nor goes on with the builds of the recipes above it, and an import
leaves the build alone that it is a part of. -/
theorem Run.spares {task : Task} {world after : World} {flow : Flow}
    (run : Run book task world flow after) (ready : task.Underway book world) {dirs : Set Dir}
    (above : Above book world dirs task.dir) :
    (∀ upper ∈ dirs, Untouched upper world after) ∧
      (task.Importing → Quiet task.dir world after ∧
        after.tree task.dir exportMark = world.tree task.dir exportMark) := by
  have different : ∀ {dirs : Set Dir} {dir other : Dir}, dir ∉ dirs → other ∈ dirs → other ≠ dir :=
    fun outside inside same => outside (same ▸ inside)
  induction run generalizing dirs with
  | missing | built => exact ⟨fun upper _ => .refl upper _, nofun⟩
  | build present unbuilt _ ih =>
      have called : ∀ upper ∈ dirs, ¬(Event.called _ "botbrew_do_build").ofBuild upper :=
        fun upper member own => different above.1 member own.1.symm
      have inside := ih ⟨present, unbuilt, fun _ member => member⟩
        (above.congr fun upper member => (Untouched.record (called upper member) _).marks)
      refine ⟨fun upper member => ?_, nofun⟩
      exact ((Untouched.record (called upper member) _).trans (inside.1 upper member)).trans (.afterCall _ _ _ _)
  | touch => exact ⟨fun upper member => .afterTouch (different above.1 member) _, nofun⟩
  | external_exit => exact ⟨fun upper member => .afterExternal (different above.1 member) _ _ _ _, nofun⟩
  | @external _ dir world guarded effect vars _ _ _ _ _ ih =>
      have ran : ∀ upper ∈ dirs, Untouched upper world (world.afterExternal site dir guarded effect vars) :=
        fun upper member => .afterExternal (different above.1 member) _ _ _ _
      have inside := ih ready.afterExternal (above.congr fun upper member => (ran upper member).marks)
      exact ⟨fun upper member => (ran upper member).trans (inside.1 upper member), nofun⟩
  | import_exit _ ih =>
      obtain ⟨present, unbuilt, steps⟩ := ready
      obtain ⟨spared, _⟩ := ih ⟨present, unbuilt, steps _ List.mem_cons_self⟩ above
      exact ⟨fun upper member => (spared upper member).trans (.ran (different above.1 member) _ _), nofun⟩
  | @importing _ dir world code middle _ _ _ _ _ importIH restIH =>
      obtain ⟨present, unbuilt, steps⟩ := ready
      obtain ⟨spared, own⟩ := importIH ⟨present, unbuilt, steps _ List.mem_cons_self⟩ above
      have kept : ∀ upper ∈ dirs, Untouched upper world (middle.record (.ran dir false code)) :=
        fun upper member => (spared upper member).trans (.ran (different above.1 member) _ _)
      have still := (own trivial).2.trans unbuilt
      have inside := restIH ⟨present, still, fun step member => steps step (List.mem_cons_of_mem _ member)⟩
        (above.congr fun upper member => (kept upper member).marks)
      exact ⟨fun upper member => (kept upper member).trans (inside.1 upper member), nofun⟩
  | mkdir_exit => exact ⟨fun upper _ => .entered upper _ _, fun _ => ⟨(Untouched.entered _ _ _).quiet, rfl⟩⟩
  | @mkdir _ dir world _ _ _ _ ih =>
      obtain ⟨present, unbuilt, imports⟩ := ready
      obtain ⟨spared, own⟩ := ih ⟨present, unbuilt, imports, [], rfl, by simp⟩
        (above.congr fun upper _ => (Untouched.entered upper dir world).marks)
      refine ⟨fun upper member => ?_, fun _ => ⟨?_, ?_⟩⟩
      · exact ((Untouched.entered upper dir world).trans (spared upper member)).trans (.afterCall _ _ _ _)
      · exact ((Untouched.entered dir dir world).quiet.trans (own trivial).1).trans (.afterCall _ _ _ _)
      · exact (sameMarks_afterCall _ _ _ _ _ isMark_export).trans (own trivial).2
  | all_imported => exact ⟨fun upper _ => .refl upper _, fun _ => ⟨.of_log rfl, rfl⟩⟩
  | imported marked _ ih => exact ih (ready.next rfl (fun _ present => present) marked) above
  | no_directory => exact ⟨fun upper _ => .refl upper _, fun _ => ⟨.of_log rfl, rfl⟩⟩
  | @build_failed dir world item _ _ _ unmarked isDir run _ ih =>
      obtain ⟨spared, _⟩ := ih trivial (above.extend (ready.waits unmarked isDir) run)
      have own := spared dir (Set.mem_insert _ _)
      exact ⟨fun upper member => spared upper (.inr member), fun _ => ⟨own.quiet, own.marks _ isMark_export⟩⟩
  | @copy_failed dir world item _ middle unmarked isDir run _ ih =>
      obtain ⟨spared, _⟩ := ih trivial (above.extend (ready.waits unmarked isDir) run)
      have copied : ∀ upper ∈ insert dir dirs, Untouched upper world (middle.afterCopy site dir item) :=
        fun upper member => (spared upper member).trans (.afterCopy upper middle item)
      have own := copied dir (Set.mem_insert _ _)
      exact ⟨fun upper member => copied upper (.inr member), fun _ => ⟨own.quiet, own.marks _ isMark_export⟩⟩
  | @mark_failed dir world item _ middle unmarked isDir run _ _ ih =>
      obtain ⟨spared, _⟩ := ih trivial (above.extend (ready.waits unmarked isDir) run)
      have copied : ∀ upper ∈ insert dir dirs, Untouched upper world (middle.afterCopy site dir item) :=
        fun upper member => (spared upper member).trans (.afterCopy upper middle item)
      have own := copied dir (Set.mem_insert _ _)
      refine ⟨fun upper member => ?_, fun _ => ⟨own.quiet.trans (.of_log rfl), ?_⟩⟩
      · exact (copied upper (.inr member)).trans (.afterMark (different above.1 member) _ _)
      · exact (afterMark_exportMark _ _ _).trans (own.marks _ isMark_export)
  | @import_item dir world item rest middle _ _ unmarked isDir run _ made _ buildIH restIH =>
      obtain ⟨spared, _⟩ := buildIH trivial (above.extend (ready.waits unmarked isDir) run)
      have copied : ∀ upper ∈ insert dir dirs, Untouched upper world (middle.afterCopy site dir item) :=
        fun upper member => (spared upper member).trans (.afterCopy upper middle item)
      have own := copied dir (Set.mem_insert _ _)
      have marked : ∀ upper ∈ dirs, Untouched upper world ((middle.afterCopy site dir item).afterMark site dir item) :=
        fun upper member => (copied upper (.inr member)).trans (.afterMark (different above.1 member) _ _)
      have same : ((middle.afterCopy site dir item).afterMark site dir item).tree dir exportMark =
          world.tree dir exportMark :=
        (afterMark_exportMark _ _ _).trans (own.marks _ isMark_export)
      have grows : Within book dir (middle.afterCopy site dir item)
          ((middle.afterCopy site dir item).afterMark site dir item) := within_afterMark _ _
      have kept : ∀ other, (world.tree dir (importMark other)).isSome →
          (((middle.afterCopy site dir item).afterMark site dir item).tree dir (importMark other)).isSome :=
        fun other present => grows.marks dir _ (isMark_import other)
          ((own.marks _ (isMark_import other)).symm ▸ present)
      have inside := restIH (ready.next same kept (by simp [World.afterMark, made, touchPath_self]))
        (above.congr fun upper member => (marked upper member).marks)
      refine ⟨fun upper member => (marked upper member).trans (inside.1 upper member), fun _ => ⟨?_, ?_⟩⟩
      · exact (own.quiet.trans (.of_log rfl)).trans (inside.2 trivial).1
      · exact (inside.2 trivial).2.trans same

end BotBrew.Cookbook
