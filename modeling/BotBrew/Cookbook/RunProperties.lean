import BotBrew.Cookbook.Plain

/-! The footprint of a build: it works in the directories its recipe reaches,
and neither events nor markers are ever taken back. -/

set_option autoImplicit false

namespace BotBrew.Cookbook

open Shell

variable {site : Site} {book : PlainBook site}

/-- `lower` is `upper` itself or a direct or indirect dependency of it. -/
def PlainBook.Reaches (book : PlainBook site) (upper lower : Dir) : Prop :=
  Relation.ReflTransGen (fun dir dep => book.Lists dep dir) upper lower

theorem PlainBook.Reaches.of_lists {upper dep lower : Dir} (listed : book.Lists dep upper)
    (below : book.Reaches dep lower) : book.Reaches upper lower :=
  Relation.ReflTransGen.head listed below

theorem PlainBook.FiniteAcyclic.not_reaches (acyclic : book.FiniteAcyclic) {dir dep : Dir}
    (listed : book.Lists dep dir) : ¬ book.Reaches dep dir := by
  intro back
  have cycle : Relation.TransGen (fun dir dep => book.Lists dep dir) dir dir :=
    Relation.TransGen.head' listed back
  exact acyclic.acyclic dir (Relation.transGen_swap.mp cycle)

def Event.dir : Event → Dir
  | .called dir _ | .returned dir _ _ | .ran dir _ _ | .touched dir _ | .copied dir _ _
  | .packaged dir _ _ => dir

structure Within (book : PlainBook site) (dir : Dir) (world after : World) : Prop where
  log : ∃ recent, after.log = recent ++ world.log ∧
    ∀ event ∈ recent, book.Reaches dir event.dir
  frame : ∀ other, ¬ book.Reaches dir other → after.tree other = world.tree other
  marks : ∀ other path, IsMark path → (world.tree other path).isSome →
    (after.tree other path).isSome

namespace Within

variable {dir dep : Dir} {world middle after : World}

theorem refl (world : World) : Within book dir world world :=
  ⟨⟨[], rfl, by simp⟩, fun _ _ => rfl, fun _ _ _ present => present⟩

theorem trans (first : Within book dir world middle) (second : Within book dir middle after) :
    Within book dir world after := by
  obtain ⟨early, earlyLog, earlyDirs⟩ := first.log
  obtain ⟨late, lateLog, lateDirs⟩ := second.log
  refine ⟨⟨late ++ early, by simp [earlyLog, lateLog], fun event member => ?_⟩,
    fun other outside => ?_, fun other path mark present => ?_⟩
  · rcases List.mem_append.mp member with member | member
    · exact lateDirs event member
    · exact earlyDirs event member
  · rw [second.frame other outside, first.frame other outside]
  · exact second.marks other path mark (first.marks other path mark present)

theorem mem_log (within : Within book dir world after) {event : Event}
    (member : event ∈ world.log) : event ∈ after.log := by
  obtain ⟨recent, log, _⟩ := within.log
  simp [log, member]

theorem of_lists (listed : book.Lists dep dir) (within : Within book dep world after) :
    Within book dir world after := by
  obtain ⟨recent, log, dirs⟩ := within.log
  refine ⟨⟨recent, log, fun event member => .of_lists listed (dirs event member)⟩,
    fun other outside => within.frame other fun inside => outside (.of_lists listed inside),
    within.marks⟩

theorem record {event : Event} (here : event.dir = dir) (world : World) :
    Within book dir world (world.record event) :=
  ⟨⟨[event], rfl, by simp [here, PlainBook.Reaches, Relation.ReflTransGen.refl]⟩,
    fun _ _ => rfl, fun _ _ _ present => present⟩

/-- A command works in the directory it runs in, and removes no marker. -/
theorem update {change : Tree → Tree} (world : World)
    (keeps : ∀ path, IsMark path → (world.tree dir path).isSome →
      (change (world.tree dir) path).isSome) :
    Within book dir world (world.tick.update dir change) := by
  refine ⟨⟨[], rfl, by simp⟩, fun other outside => ?_, fun other path mark present => ?_⟩
  · have different : other ≠ dir := fun same => outside (same ▸ Relation.ReflTransGen.refl)
    rw [World.update_tree_of_ne different, World.tick_tree]
  · by_cases same : other = dir
    · subst same
      simpa using keeps path mark present
    · rw [World.update_tree_of_ne same, World.tick_tree]
      exact present

end Within

def Built (world : World) (dir : Dir) : Prop := (world.tree dir exportMark).isSome

theorem isMark_export : IsMark exportMark := .inl rfl

theorem isMark_import (item : String) : IsMark (importMark item) := .inr ⟨item, rfl⟩

theorem Within.built {dir other : Dir} {world after : World} (within : Within book dir world after)
    (built : Built world other) : Built after other :=
  within.marks other exportMark isMark_export built

theorem touchPath_isSome {path other : Path} {tree : Tree} (present : (tree other).isSome) :
    (touchPath path tree other).isSome := by
  by_cases same : other = path
  · simp [touchPath, same]
  · simpa [touchPath, same] using present

theorem touchPath_self (path : Path) (tree : Tree) : (touchPath path tree path).isSome := by
  simp [touchPath]

theorem touchPath_of_ne {path other : Path} (different : other ≠ path) (tree : Tree) :
    touchPath path tree other = tree other := by
  simp [touchPath, different]

theorem copyTree_mark (src dst : String) (outcome : Outcome) (exported into : Tree) {path : Path}
    (mark : IsMark path) : copyTree src dst outcome exported into path = into path := by
  have hidden : ∃ top name, path = [top, name] ∧ visible name = false := by
    rcases mark with rfl | ⟨item, rfl⟩
    · exact ⟨"export", ".d", rfl, by decide⟩
    · exact ⟨"import", ".import." ++ item, rfl, by simp [visible]⟩
  obtain ⟨top, name, rfl, hidden⟩ := hidden
  simp [copyTree, hidden]

section Commands

variable {dir : Dir} (world : World)

theorem within_afterExternal (guarded : Bool) (effect : Effect) (vars : Vars) :
    Within book dir world (world.afterExternal site dir guarded effect vars) := by
  refine (Within.update world fun path mark present => ?_).trans (.record (by rfl) _)
  rw [effect.keeps_marks _ _ _ _ mark]
  exact present

theorem within_afterTouch : Within book dir world (world.afterTouch site dir) := by
  refine ((Within.update world fun path _ present => ?_).trans (.record (by rfl) _)).trans
    (.record (by rfl) _)
  split
  · exact touchPath_isSome present
  · exact present

theorem within_afterCopy (item : String) :
    Within book dir world (world.afterCopy site dir item) := by
  have copied : Within book dir world (world.tick.update dir (copyTree "export" "import"
      (site.outcome world.clock) (world.tree (site.itemDir item)))) :=
    Within.update world fun path mark present => by
      rw [copyTree_mark _ _ _ _ _ mark]
      exact present
  unfold World.afterCopy
  split
  · exact copied.trans (.record (by rfl) _)
  · exact copied

theorem within_afterMark (item : String) :
    Within book dir world (world.afterMark site dir item) := by
  refine Within.update world fun path _ present => ?_
  split
  · exact touchPath_isSome present
  · exact present

theorem within_tick : Within book dir world world.tick :=
  ⟨⟨[], rfl, by simp⟩, fun _ _ => rfl, fun _ _ _ present => present⟩

theorem within_afterCall (name : String) (flow : Flow) :
    Within book dir world (world.afterCall dir name flow) := by
  cases flow with
  | exit code => exact .refl world
  | done code => exact .record (by rfl) world
  | ret code => exact .record (by rfl) world

end Commands

def Task.dir : Task → Dir
  | .recipe _ dir | .steps _ dir _ | .botbrew_import _ dir | .items dir _ => dir

/-- A task inside a build belongs to a recipe, and imports what that recipe lists. -/
def Task.Valid (book : PlainBook site) : Task → Prop
  | .recipe _ _ => True
  | .steps _ dir _ | .botbrew_import _ dir => site.HasRecipe dir
  | .items dir rest => site.HasRecipe dir ∧ rest ⊆ book.depend dir

theorem Task.Valid.lists {dir : Dir} {item : String} {rest : List String}
    (valid : (Task.items dir (item :: rest)).Valid book) : book.Lists (site.itemDir item) dir :=
  ⟨valid.1, item, valid.2 List.mem_cons_self, rfl⟩

theorem Task.Valid.tail {dir : Dir} {item : String} {rest : List String}
    (valid : (Task.items dir (item :: rest)).Valid book) : (Task.items dir rest).Valid book :=
  ⟨valid.1, fun _ member => valid.2 (List.mem_cons_of_mem _ member)⟩

/-- A build stays within the directories that its recipe reaches. -/
theorem Run.within {task : Task} {world after : World} {flow : Flow}
    (run : Run book task world flow after) (valid : task.Valid book) :
    Within book task.dir world after := by
  induction run with
  | missing | built | no_directory | all_imported => exact .refl _
  | build present _ _ ih =>
      exact ((Within.record (by rfl) _).trans (ih present)).trans (within_afterCall _ _ _)
  | touch => exact within_afterTouch _
  | external_exit => exact within_afterExternal _ _ _ _
  | external _ _ ih => exact (within_afterExternal _ _ _ _).trans (ih valid)
  | import_exit _ ih => exact (ih valid).trans (.record (by rfl) _)
  | importing _ _ importIH restIH =>
      exact ((importIH valid).trans (.record (by rfl) _)).trans (restIH valid)
  | mkdir_exit => exact (Within.record (by rfl) _).trans (within_tick _)
  | mkdir _ _ ih =>
      exact (((Within.record (by rfl) _).trans (within_tick _)).trans
        (ih ⟨valid, fun _ member => member⟩)).trans (within_afterCall _ _ _)
  | imported _ _ ih => exact ih valid.tail
  | build_failed _ _ _ _ ih => exact .of_lists valid.lists (ih trivial)
  | copy_failed _ _ _ _ ih =>
      exact (Within.of_lists valid.lists (ih trivial)).trans (within_afterCopy _ _)
  | mark_failed _ _ _ _ _ ih =>
      exact ((Within.of_lists valid.lists (ih trivial)).trans (within_afterCopy _ _)).trans
        (within_afterMark _ _)
  | import_item _ _ _ _ _ _ buildIH restIH =>
      exact (((Within.of_lists valid.lists (buildIH trivial)).trans (within_afterCopy _ _)).trans
        (within_afterMark _ _)).trans (restIH valid.tail)

theorem Run.items_flow {dir : Dir} {items : List String} {world after : World} {flow : Flow}
    (run : Run book (.items dir items) world flow after) : flow = .done 0 ∨ flow = .ret 1 := by
  generalize shape : Task.items dir items = task at run
  induction run generalizing items with
  | all_imported => exact .inl rfl
  | imported _ _ ih | import_item _ _ _ _ _ _ _ ih =>
      cases shape
      exact ih rfl
  | no_directory | build_failed | copy_failed | mark_failed => exact .inr rfl
  | _ => cases shape

end BotBrew.Cookbook
