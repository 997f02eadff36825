import BotBrew.Cookbook.BuildOrder
import BotBrew.Cookbook.PlainProperties

/-! A build that nothing stops is a depth-first search: it builds each recipe
that is needed once, and every dependency before the recipe that copies it. -/

set_option autoImplicit false

namespace BotBrew.Cookbook

open Shell

variable {site : Site} {book : PlainBook site} {start : Dir → Tree} {goal dir : Dir}
variable {world middle after : World}

structure Fresh (start : Dir → Tree) (world : World) (dir : Dir) : Prop where
  marks : ∀ path, IsMark path → (world.tree dir path).isSome → (start dir path).isSome
  uncopied : ∀ item exported, .copied dir item exported ∉ world.log

/-- What `dir` imports in this run: the dependency is built, and its exports are copied. -/
structure Copied (world : World) (site : Site) (dir : Dir) (item : String) : Prop where
  built : Built world (site.itemDir item)
  logged : ∃ exported, .copied dir item exported ∈ world.log

/-- The dependencies of `dir` are marked as imported, and copied if that is new. -/
def Imported (book : PlainBook site) (start : Dir → Tree) (world : World) (dir : Dir) : Prop :=
  ∀ item ∈ book.depend dir, (world.tree dir (importMark item)).isSome ∧
    (start dir (importMark item) = none → Copied world site dir item)

inductive Idle (book : PlainBook site) (start : Dir → Tree) (goal : Dir) (world : World)
    (dir : Dir) : Prop where
  | waiting : begun dir world.log = 0 → ended dir world.log = 0 → Fresh start world dir →
      Idle book start goal world dir
  | finished : begun dir world.log = 1 → ended dir world.log = 1 → Built world dir →
      book.Needed start goal dir → Imported book start world dir →
      Idle book start goal world dir

def Below (book : PlainBook site) (start : Dir → Tree) (goal dir : Dir) (world : World) : Prop :=
  ∀ other, book.Reaches dir other → other ≠ dir → Idle book start goal world other

structure Importing (book : PlainBook site) (start : Dir → Tree) (world : World) (dir : Dir)
    (done : List String) : Prop where
  marked : ∀ item ∈ done, (world.tree dir (importMark item)).isSome
  vouched : ∀ item, (world.tree dir (importMark item)).isSome →
    (start dir (importMark item)).isSome ∨ Copied world site dir item
  copied : ∀ item exported, .copied dir item exported ∈ world.log → item ∈ done
  merged : Merged (book.depend dir) dir world.log (world.tree dir)

structure Ordered (book : PlainBook site) (start : Dir → Tree) (world : World) : Prop where
  kept : ∀ dir path, IsMark path → (start dir path).isSome → (world.tree dir path).isSome
  log : LogInOrder book world.log

theorem Fresh.apart (fresh : Fresh start world dir) (apart : Apart dir world after) :
    Fresh start after dir := by
  refine ⟨fun path mark present => fresh.marks path mark ?_, fun item exported member => ?_⟩
  · rwa [← apart.tree]
  · exact fresh.uncopied item exported ((apart.mem_log (by rfl)).mp member)

theorem Copied.apart {item : String} (copied : Copied world site dir item) (apart : Apart dir world after)
    (built : ∀ other, Built world other → Built after other) : Copied after site dir item := by
  obtain ⟨exported, member⟩ := copied.logged
  exact ⟨built _ copied.built, exported, (apart.mem_log (by rfl)).mpr member⟩

theorem Copied.within {lower : Dir} {item : String} (copied : Copied world site dir item)
    (within : Within book lower world after) : Copied after site dir item := by
  obtain ⟨exported, member⟩ := copied.logged
  exact ⟨within.built copied.built, exported, within.mem_log member⟩

theorem Imported.apart (imported : Imported book start world dir) (apart : Apart dir world after)
    (built : ∀ other, Built world other → Built after other) : Imported book start after dir := by
  intro item member
  rw [apart.tree]
  exact (imported item member).imp_right fun copied absent => (copied absent).apart apart built

theorem Imported.within {lower : Dir} (imported : Imported book start world dir)
    (within : Within book lower world after) : Imported book start after dir := by
  intro item member
  obtain ⟨marked, copied⟩ := imported item member
  exact ⟨within.marks _ _ (isMark_import item) marked, fun absent => (copied absent).within within⟩

theorem Idle.apart (idle : Idle book start goal world dir) (apart : Apart dir world after)
    (built : ∀ other, Built world other → Built after other) : Idle book start goal after dir := by
  cases idle with
  | waiting notBegun notEnded fresh =>
      exact .waiting (apart.begun.trans notBegun) (apart.ended.trans notEnded) (fresh.apart apart)
  | finished begun ended isBuilt needed imports =>
      exact .finished (apart.begun.trans begun) (apart.ended.trans ended) (built dir isBuilt) needed
        (imports.apart apart built)

theorem Below.apart (below : Below book start goal dir world)
    (apart : ∀ other ≠ dir, Apart other world after)
    (built : ∀ other, Built world other → Built after other) :
    Below book start goal dir after :=
  fun other reached different => (below other reached different).apart (apart other different) built

theorem Below.nested {dep : Dir} (below : Below book start goal dir world)
    (within : Within book dep world after)
    (idle : ∀ other, book.Reaches dep other → Idle book start goal after other) :
    Below book start goal dir after := by
  intro other reached different
  by_cases inside : book.Reaches dep other
  · exact idle other inside
  · exact (below other reached different).apart (.of_within within inside) fun _ => within.built

theorem Ordered.within {other : Dir} (ordered : Ordered book start world)
    (within : Within book other world after) (log : LogInOrder book after.log) :
    Ordered book start after :=
  ⟨fun dir path mark present => within.marks dir path mark (ordered.kept dir path mark present),
    log⟩

/-! Counting calls -/

structure SameCounts (dir : Dir) (world after : World) : Prop where
  begun : begun dir after.log = begun dir world.log
  ended : ended dir after.log = ended dir world.log

namespace SameCounts

theorem refl (dir : Dir) (world : World) : SameCounts dir world world := ⟨rfl, rfl⟩

theorem trans (first : SameCounts dir world middle) (second : SameCounts dir middle after) :
    SameCounts dir world after :=
  ⟨second.begun.trans first.begun, second.ended.trans first.ended⟩

theorem of_apart (apart : Apart dir world after) : SameCounts dir world after :=
  ⟨apart.begun, apart.ended⟩

theorem record {event : Event} (noBegin : event.begins = false) (noEnd : event.ends = false)
    (world : World) : SameCounts dir world (world.record event) := by
  by_cases here : event.dir = dir
  · subst here
    constructor
    · simp [Cookbook.begun, noBegin]
    · simp [Cookbook.ended, noEnd]
  · exact .of_apart ⟨ownLog_cons_of_ne here world.log, rfl⟩

theorem update {other : Dir} (change : Tree → Tree) (world : World) :
    SameCounts dir world (world.tick.update other change) := ⟨rfl, rfl⟩

theorem afterExternal (guarded : Bool) (effect : Effect) (vars : Vars) (world : World) :
    SameCounts dir world (world.afterExternal site dir guarded effect vars) :=
  (update _ world).trans (.record rfl rfl _)

theorem afterTouch (world : World) : SameCounts dir world (world.afterTouch site dir) :=
  ((update _ world).trans (.record rfl rfl _)).trans (.record rfl rfl _)

theorem afterCopy (item : String) (world : World) :
    SameCounts dir world (world.afterCopy site dir item) := by
  unfold World.afterCopy
  split
  · exact (update _ world).trans (.record rfl rfl _)
  · exact update _ world

theorem afterMark (item : String) (world : World) :
    SameCounts dir world (world.afterMark site dir item) := update _ world

end SameCounts

/-! One step of the loop of `botbrew_import` -/

namespace Importing

variable {done : List String}

theorem start_of_fresh (fresh : Fresh start world dir) : Importing book start world dir [] where
  marked := by simp
  vouched item present := .inl (fresh.marks _ (isMark_import item) present)
  copied item exported member := absurd member (fresh.uncopied item exported)
  merged _ _ _ item exported _ member := absurd member (fresh.uncopied item exported)

theorem apart (importing : Importing book start world dir done) (apart : Apart dir world after)
    (built : ∀ other, Built world other → Built after other) :
    Importing book start after dir done := by
  have copied : ∀ item exported,
      .copied dir item exported ∈ after.log ↔ .copied dir item exported ∈ world.log :=
    fun item exported => apart.mem_log (by rfl)
  refine ⟨fun item member => ?_, fun item present => ?_, fun item exported member => ?_, ?_⟩
  · rw [apart.tree]
    exact importing.marked item member
  · rw [apart.tree] at present
    exact (importing.vouched item present).imp_right fun copied => copied.apart apart built
  · exact importing.copied item exported ((copied item exported).mp member)
  · intro first rest shown item exported file member found last
    rw [apart.tree]
    refine importing.merged first rest shown item exported file ((copied _ _).mp member) found ?_
    exact fun later exported' member' => last later exported' ((copied _ _).mpr member')

theorem skip (importing : Importing book start world dir done) {item : String}
    (present : (world.tree dir (importMark item)).isSome) :
    Importing book start world dir (done ++ [item]) where
  marked other member := by
    rcases List.mem_append.mp member with member | member
    · exact importing.marked other member
    · rw [List.mem_singleton.mp member]
      exact present
  vouched := importing.vouched
  copied other exported member := List.mem_append_left _ (importing.copied other exported member)
  merged := importing.merged

end Importing

theorem afterCopyMark_log {item : String} (copied : (site.outcome world.clock).code = 0) :
    ((world.afterCopy site dir item).afterMark site dir item).log =
      .copied dir item (world.tree (site.itemDir item)) :: world.log := by
  simp [World.afterCopy, World.afterMark, copied]

theorem afterCopyMark_import {item first : String} {rest : Path}
    (succeed : ∀ clock, (site.outcome clock).code = 0) (shown : visible first) :
    ((world.afterCopy site dir item).afterMark site dir item).tree dir ("import" :: first :: rest) =
      (world.tree (site.itemDir item) ("export" :: first :: rest)).or
        (world.tree dir ("import" :: first :: rest)) := by
  have unmarked : "import" :: first :: rest ≠ importMark item := by
    rintro same
    obtain ⟨rfl, _⟩ : first = ".import." ++ item ∧ rest = [] := by simpa [importMark] using same
    simp [visible] at shown
  simp [World.afterCopy, World.afterMark, succeed, touchPath_of_ne unmarked, copyTree, shown]

theorem afterCopyMark_mark {item : String} (succeed : ∀ clock, (site.outcome clock).code = 0) :
    (((world.afterCopy site dir item).afterMark site dir item).tree dir (importMark item)).isSome := by
  simp [World.afterMark, succeed, touchPath_self]

theorem afterCopyMark_other {item : String} {path : Path}
    (succeed : ∀ clock, (site.outcome clock).code = 0) (mark : IsMark path)
    (other : path ≠ importMark item) :
    ((world.afterCopy site dir item).afterMark site dir item).tree dir path =
      world.tree dir path := by
  simp [World.afterCopy, World.afterMark, succeed, touchPath_of_ne other, copyTree_mark, mark]

theorem Importing.copy {done rest : List String} {item : String}
    (importing : Importing book start world dir done)
    (succeed : ∀ clock, (site.outcome clock).code = 0)
    (listed : book.depend dir = done ++ item :: rest) (new : item ∉ done)
    (built : Built world (site.itemDir item)) :
    Importing book start ((world.afterCopy site dir item).afterMark site dir item) dir
      (done ++ [item]) := by
  have within : Within book dir world ((world.afterCopy site dir item).afterMark site dir item) :=
    (within_afterCopy _ _).trans (within_afterMark _ _)
  have log : ((world.afterCopy site dir item).afterMark site dir item).log =
      .copied dir item (world.tree (site.itemDir item)) :: world.log :=
    afterCopyMark_log (succeed world.clock)
  have earlier : ∀ other ∈ done, (book.depend dir).idxOf other < (book.depend dir).idxOf item := by
    intro other member
    rw [listed, List.idxOf_append_of_mem member, List.idxOf_append_of_notMem new]
    exact Nat.lt_add_right _ (List.idxOf_lt_length_iff.mpr member)
  refine ⟨fun other member => ?_, fun other present => ?_, fun other exported member => ?_, ?_⟩
  · rcases List.mem_append.mp member with member | member
    · exact within.marks _ _ (isMark_import other) (importing.marked other member)
    · rw [List.mem_singleton.mp member]
      exact afterCopyMark_mark succeed
  · by_cases same : other = item
    · subst same
      exact .inr ⟨within.built built, _, log ▸ List.mem_cons_self⟩
    · have different : importMark other ≠ importMark item :=
        fun marks => same (importMark_injective marks)
      rw [afterCopyMark_other succeed (isMark_import other) different] at present
      exact (importing.vouched other present).imp_right fun copied => copied.within within
  · rw [log, List.mem_cons] at member
    rcases member with same | member
    · cases same
      simp
    · exact List.mem_append_left _ (importing.copied other exported member)
  · intro first rest shown other exported file member found last
    rw [afterCopyMark_import succeed shown]
    rw [log] at member last
    rcases List.mem_cons.mp member with same | member
    · cases same
      rw [found, Option.some_or]
    · have unlisted := last item _ List.mem_cons_self
        (earlier other (importing.copied other exported member))
      rw [unlisted, Option.none_or]
      exact importing.merged first rest shown other exported file member found
        fun later exported' member' => last later exported' (List.mem_cons_of_mem _ member')

/-! Runs -/

structure Working (book : PlainBook site) (start : Dir → Tree) (goal : Dir) (world : World)
    (dir : Dir) : Prop where
  present : site.HasRecipe dir
  needed : book.Needed start goal dir
  below : Below book start goal dir world

structure AfterImport (book : PlainBook site) (start : Dir → Tree) (world : World) (dir : Dir) :
    Prop where
  imported : Imported book start world dir
  returned : ∃ tree, .returned dir "botbrew_import" tree ∈ world.log

def Task.Ready (book : PlainBook site) (start : Dir → Tree) (goal : Dir) (world : World) :
    Task → Prop
  | .recipe _ dir =>
      site.HasRecipe dir ∧ (start dir exportMark = none → book.Needed start goal dir) ∧
        ∀ other, book.Reaches dir other → Idle book start goal world other
  | .steps _ dir rest =>
      Working book start goal world dir ∧
        (Fresh start world dir ∧ .botbrew_import ∈ rest ∨ AfterImport book start world dir)
  | .botbrew_import _ dir =>
      Working book start goal world dir ∧
        (Fresh start world dir ∨ AfterImport book start world dir)
  | .items dir todo =>
      Working book start goal world dir ∧
        ∃ done, book.depend dir = done ++ todo ∧ Importing book start world dir done

def Task.Done (book : PlainBook site) (start : Dir → Tree) (goal : Dir) (world after : World) :
    Task → Prop
  | .recipe _ dir =>
      Built after dir ∧ ∀ other, book.Reaches dir other → Idle book start goal after other
  | .steps _ dir _ =>
      Below book start goal dir after ∧ SameCounts dir world after ∧
        Imported book start after dir ∧ Built after dir
  | .botbrew_import _ dir =>
      Below book start goal dir after ∧ SameCounts dir world after ∧
        AfterImport book start after dir
  | .items dir _ =>
      Below book start goal dir after ∧ SameCounts dir world after ∧
        Importing book start after dir (book.depend dir)

theorem Working.apart (working : Working book start goal world dir)
    (apart : ∀ other ≠ dir, Apart other world after)
    (built : ∀ other, Built world other → Built after other) :
    Working book start goal after dir :=
  ⟨working.present, working.needed, working.below.apart apart built⟩

theorem AfterImport.within (afterImport : AfterImport book start world dir) {lower : Dir}
    (within : Within book lower world after) : AfterImport book start after dir := by
  obtain ⟨tree, member⟩ := afterImport.returned
  exact ⟨afterImport.imported.within within, tree, within.mem_log member⟩

theorem Run.items_marked {items : List String} {flow : Flow}
    (run : Run book (.items dir items) world flow after)
    (marked : ∀ item ∈ items, (world.tree dir (importMark item)).isSome) :
    flow = .done 0 ∧ after = world := by
  generalize shape : Task.items dir items = task at run
  induction run generalizing items with
  | all_imported => exact ⟨rfl, rfl⟩
  | imported _ _ ih =>
      cases shape
      exact ih (fun item member => marked item (List.mem_cons_of_mem _ member)) rfl
  | no_directory unmarked | build_failed unmarked | copy_failed unmarked | mark_failed unmarked
  | import_item unmarked =>
      cases shape
      have present := marked _ List.mem_cons_self
      simp [unmarked] at present
  | _ => cases shape

/-- A recipe that waits for its build has the markers that it had at the start. -/
theorem Idle.fresh (idle : Idle book start goal world dir)
    (unbuilt : world.tree dir exportMark = none) :
    begun dir world.log = 0 ∧ ended dir world.log = 0 ∧ Fresh start world dir := by
  cases idle with
  | waiting notBegun notEnded fresh => exact ⟨notBegun, notEnded, fresh⟩
  | finished _ _ built => simp [Built, unbuilt] at built

theorem Idle.balanced (idle : Idle book start goal world dir) :
    begun dir world.log = ended dir world.log := by
  cases idle with
  | waiting notBegun notEnded _ => exact notBegun.trans notEnded.symm
  | finished begun ended _ _ _ => exact begun.trans ended.symm

theorem Ordered.unmarked (ordered : Ordered book start world) {path : Path} (mark : IsMark path)
    (absent : world.tree dir path = none) : start dir path = none := by
  cases present : start dir path with
  | none => rfl
  | some file =>
      have kept := ordered.kept dir path mark (by simp [present])
      simp [absent] at kept

theorem Fresh.afterExternal (fresh : Fresh start world dir) (guarded : Bool) (effect : Effect)
    (vars : Vars) : Fresh start (world.afterExternal site dir guarded effect vars) dir := by
  refine ⟨fun path mark present => fresh.marks path mark ?_, fun item exported member => ?_⟩
  · simpa [World.afterExternal, effect.keeps_marks _ _ _ _ mark] using present
  · exact fresh.uncopied item exported (by simpa [World.afterExternal] using member)

theorem Importing.imported {dir : Dir} (importing : Importing book start world dir (book.depend dir)) :
    Imported book start world dir := by
  intro item listed
  refine ⟨importing.marked item listed, fun absent => ?_⟩
  rcases importing.vouched item (importing.marked item listed) with present | copied
  · simp [absent] at present
  · exact copied

theorem counts_called (dir : Dir) (world : World) :
    begun dir (world.record (.called dir "botbrew_do_build")).log = begun dir world.log + 1 ∧
      ended dir (world.record (.called dir "botbrew_do_build")).log = ended dir world.log := by
  simp [begun, ended, ownLog, Event.dir, Event.begins, Event.ends]

theorem counts_returned (dir : Dir) (tree : Tree) (world : World) :
    begun dir (world.record (.returned dir "botbrew_do_build" tree)).log = begun dir world.log ∧
      ended dir (world.record (.returned dir "botbrew_do_build" tree)).log =
        ended dir world.log + 1 := by
  simp [begun, ended, ownLog, Event.dir, Event.begins, Event.ends]

theorem Working.of_called {errexit : Bool}
    (ready : (Task.recipe errexit dir).Ready book start goal world)
    (needed : book.Needed start goal dir) :
    Working book start goal (world.record (.called dir "botbrew_do_build")) dir := by
  refine ⟨ready.1, needed, fun other reached different => ?_⟩
  exact (ready.2.2 other reached).apart (.record different (by rfl) world) fun _ built => built

theorem Idle.of_returned {errexit : Bool} {rest : List Step}
    (done : (Task.steps errexit dir rest).Done book start goal
      (world.record (.called dir "botbrew_do_build")) after)
    (notBegun : begun dir world.log = 0) (notEnded : ended dir world.log = 0)
    (needed : book.Needed start goal dir) (other : Dir) (reached : book.Reaches dir other) :
    Idle book start goal
      (after.record (.returned dir "botbrew_do_build" (after.tree dir))) other := by
  obtain ⟨below, counts, imported, built⟩ := done
  by_cases same : other = dir
  · subst same
    obtain ⟨begunCalled, endedCalled⟩ := counts_called other world
    obtain ⟨begunReturned, endedReturned⟩ := counts_returned other (after.tree other) after
    have within : Within book other after
        (after.record (.returned other "botbrew_do_build" (after.tree other))) := .record (by rfl) after
    refine .finished ?_ ?_ built needed (imported.within within)
    · rw [begunReturned, counts.begun, begunCalled, notBegun]
    · rw [endedReturned, counts.ended, endedCalled, notEnded]
  · exact (below other reached same).apart (.record same (by rfl) after) fun _ built => built

theorem Working.lists {done rest : List String} {item : String}
    (working : Working book start goal world dir) (listed : book.depend dir = done ++ item :: rest) :
    book.Lists (site.itemDir item) dir :=
  ⟨working.present, item, by simp [listed], rfl⟩

/-- A dependency that is not marked is needed where it is not built. -/
theorem Working.nested (acyclic : book.FiniteAcyclic) (complete : book.Complete)
    {done rest : List String} {item : String} (working : Working book start goal world dir)
    (ordered : Ordered book start world) (listed : book.depend dir = done ++ item :: rest)
    (absent : world.tree dir (importMark item) = none) :
    (Task.recipe false (site.itemDir item)).Ready book start goal world := by
  have lists := working.lists listed
  refine ⟨(complete.found _ _ lists).2, fun unbuilt => ?_, fun other reached => ?_⟩
  · exact .listed working.needed (by simp [listed])
      (ordered.unmarked (isMark_import item) absent) unbuilt
  · refine working.below other (.of_lists lists reached) ?_
    rintro rfl
    exact acyclic.not_reaches lists reached

theorem within_entered (dir : Dir) (world : World) :
    Within book dir world (world.record (.called dir "botbrew_import")).tick :=
  (Within.record (by rfl) _).trans (within_tick _)

theorem Ordered.entered (ordered : Ordered book start world) (dir : Dir) :
    Ordered book start (world.record (.called dir "botbrew_import")).tick :=
  ordered.within (within_entered dir world) (ordered.log.cons (by trivial))

theorem Working.entered (working : Working book start goal world dir) :
    Working book start goal (world.record (.called dir "botbrew_import")).tick dir := by
  have within : Within book dir world (world.record (.called dir "botbrew_import")).tick := within_entered dir world
  refine working.apart (fun other different => ?_) fun _ => within.built
  have apart : Apart other world (world.record (.called dir "botbrew_import")) := .record different (by rfl) world
  exact ⟨apart.log, apart.tree⟩

theorem Run.done (acyclic : book.FiniteAcyclic) (complete : book.Complete)
    (succeed : ∀ clock, (site.outcome clock).code = 0) {task : Task} {flow : Flow}
    (run : Run book task world flow after) (ordered : Ordered book start world)
    (ready : task.Ready book start goal world) :
    flow = .done 0 ∧ Ordered book start after ∧ task.Done book start goal world after := by
  induction run with
  | missing found =>
      have present := ready.1
      simp [Site.HasRecipe, found] at present
  | built _ built => exact ⟨rfl, ordered, built, ready.2.2⟩
  | @build errexit dir world flow after present absent run ih =>
      obtain ⟨notBegun, notEnded, fresh⟩ := (ready.2.2 dir .refl).fresh absent
      have needed := ready.2.1 (ordered.unmarked isMark_export absent)
      have called : Ordered book start (world.record (.called dir "botbrew_do_build")) :=
        ⟨ordered.kept, ordered.log.cons trivial⟩
      have begin : Fresh start (world.record (.called dir "botbrew_do_build")) dir :=
        ⟨fresh.marks, fun item exported => by simp [fresh.uncopied]⟩
      obtain ⟨rfl, inside, done⟩ := ih called
        ⟨.of_called ready needed, .inl ⟨begin, complete.imports dir present⟩⟩
      refine ⟨by cases errexit <;> rfl, ?_, done.2.2.2, ?_⟩
      · exact ⟨inside.kept, inside.log.cons fun name => by simp at name⟩
      · exact Idle.of_returned done notBegun notEnded needed
  | @touch errexit dir world =>
      obtain ⟨working, ⟨_, more⟩ | imported⟩ := ready
      · cases more
      · have within : Within book dir world (world.afterTouch site dir) := within_afterTouch _
        refine ⟨by simp [succeed], ordered.within within ?_, ?_, .afterTouch world,
          (imported.within within).imported, ?_⟩
        · exact (ordered.log.cons (by trivial)).cons (by trivial)
        · exact working.below.apart (fun other different => .afterTouch different world)
            fun _ => within.built
        · simp [Built, World.afterTouch, succeed, touchPath_self]
  | external_exit failed => exact absurd (succeed _) failed
  | @external errexit dir world guarded effect vars rest flow after _ _ ih =>
      have within : Within book dir world (world.afterExternal site dir guarded effect vars) :=
        within_afterExternal _ _ _ _
      have working : Working book start goal
          (world.afterExternal site dir guarded effect vars) dir :=
        ready.1.apart (fun other different => .afterExternal different guarded effect vars world)
          fun _ => within.built
      have phase : Fresh start (world.afterExternal site dir guarded effect vars) dir ∧
          .botbrew_import ∈ rest ∨
          AfterImport book start (world.afterExternal site dir guarded effect vars) dir := by
        rcases ready.2 with ⟨fresh, more⟩ | imported
        · exact .inl ⟨fresh.afterExternal guarded effect vars, by simpa using more⟩
        · exact .inr (imported.within within)
      obtain ⟨rfl, inside, below, counts, finished⟩ :=
        ih (ordered.within within (ordered.log.cons (by trivial))) ⟨working, phase⟩
      exact ⟨rfl, inside, below, .trans (.afterExternal guarded effect vars world) counts, finished⟩
  | import_exit _ ih => cases (ih ordered ⟨ready.1, ready.2.imp_left And.left⟩).1
  | @importing errexit dir world code middle rest flow after run _ importIH restIH =>
      obtain ⟨_, inside, below, counts, imported⟩ :=
        importIH ordered ⟨ready.1, ready.2.imp_left And.left⟩
      have within : Within book dir middle (middle.record (.ran dir false code)) :=
        .record (by rfl) middle
      have working : Working book start goal (middle.record (.ran dir false code)) dir :=
        ⟨ready.1.present, ready.1.needed,
          below.apart (fun other different => .record different (by rfl) middle) fun _ => within.built⟩
      obtain ⟨rfl, last, below, counts', finished⟩ :=
        restIH (inside.within within (inside.log.cons (by trivial)))
          ⟨working, .inr (imported.within within)⟩
      exact ⟨rfl, last, below, (counts.trans (.record rfl rfl middle)).trans counts', finished⟩
  | mkdir_exit failed => exact absurd (succeed _) failed
  | @mkdir errexit dir world flow after _ run ih =>
      have called : SameCounts dir world (world.record (.called dir "botbrew_import")) :=
        .record rfl rfl world
      have counted : SameCounts dir world (world.record (.called dir "botbrew_import")).tick :=
        ⟨called.begun, called.ended⟩
      have within : Within book dir world (world.record (.called dir "botbrew_import")).tick :=
        within_entered dir world
      have opened : Ordered book start (world.record (.called dir "botbrew_import")).tick := ordered.entered dir
      have working : Working book start goal (world.record (.called dir "botbrew_import")).tick dir :=
        ready.1.entered
      rcases ready.2 with fresh | before
      · have begin : Fresh start (world.record (.called dir "botbrew_import")).tick dir :=
          ⟨fresh.marks, fun item exported => by simp [fresh.uncopied]⟩
        obtain ⟨rfl, inside, below, counts, importing⟩ :=
          ih opened ⟨working, [], rfl, .start_of_fresh begin⟩
        have later : Within book dir after (after.afterCall dir "botbrew_import" (.done 0)) :=
          within_afterCall _ _ _
        refine ⟨by cases errexit <;> rfl, inside.within later ?_, ?_, ?_, ?_⟩
        · exact inside.log.cons fun _ _ => importing.merged
        · exact below.apart (fun other different => .record different (by rfl) after)
            fun _ => later.built
        · exact (counted.trans counts).trans (.record rfl rfl after)
        · exact ⟨importing.imported.within later, _, List.mem_cons_self⟩
      · have imported := before.within within
        obtain ⟨rfl, rfl⟩ := run.items_marked fun item listed => (imported.imported item listed).1
        have later : Within book dir (world.record (.called dir "botbrew_import")).tick
            ((world.record (.called dir "botbrew_import")).tick.afterCall dir "botbrew_import"
              (.done 0)) := within_afterCall _ _ _
        refine ⟨by cases errexit <;> rfl, opened.within later ?_, ?_, ?_, ?_⟩
        · refine opened.log.cons fun _ first => ?_
          obtain ⟨tree, member⟩ := imported.returned
          exact absurd member (first tree)
        · exact working.below.apart (fun other different => .record different (by rfl) _)
            fun _ => later.built
        · exact counted.trans (.record rfl rfl _)
        · exact imported.within later
  | no_directory _ missing =>
      obtain ⟨working, done, listed, _⟩ := ready
      have found := complete.found _ _ (working.lists listed)
      simp [missing] at found
  | all_imported =>
      obtain ⟨working, done, listed, importing⟩ := ready
      rw [List.append_nil] at listed
      exact ⟨rfl, ordered, working.below, .refl _ _, listed ▸ importing⟩
  | @imported dir world item rest flow after present _ ih =>
      obtain ⟨working, done, listed, importing⟩ := ready
      exact ih ordered ⟨working, done ++ [item], by simp [listed], importing.skip present⟩
  | build_failed absent _ _ failed ih =>
      obtain ⟨working, done, listed, _⟩ := ready
      have nested := working.nested acyclic complete ordered listed absent
      exact absurd (Flow.done.inj (ih ordered nested).1) failed
  | copy_failed _ _ _ failed _ => exact absurd (succeed _) failed
  | mark_failed _ _ _ _ failed _ => exact absurd (succeed _) failed
  | @import_item dir world item rest middle flow after absent _ run _ _ _ buildIH restIH =>
      obtain ⟨working, done, listed, importing⟩ := ready
      have lists := working.lists listed
      obtain ⟨_, inside, built, idle⟩ :=
        buildIH ordered (working.nested acyclic complete ordered listed absent)
      have nested : Within book (site.itemDir item) world middle := run.within trivial
      have apart : Apart dir world middle := .of_within nested (acyclic.not_reaches lists)
      have new : item ∉ done := fun member => by
        have marked := importing.marked item member
        simp [absent] at marked
      have within : Within book dir middle
          ((middle.afterCopy site dir item).afterMark site dir item) :=
        (within_afterCopy _ _).trans (within_afterMark _ _)
      have copied : LogInOrder book ((middle.afterCopy site dir item).afterMark site dir item).log := by
        rw [afterCopyMark_log (succeed _)]
        exact inside.log.cons ⟨built, (idle _ .refl).balanced⟩
      have below := (working.below.nested nested idle).apart
        (fun other different => .trans (.afterCopy different item middle)
          (.afterMark different item (middle.afterCopy site dir item))) fun _ => within.built
      obtain ⟨rfl, last, below, counts, finished⟩ := restIH (inside.within within copied)
        ⟨⟨working.present, working.needed, below⟩, done ++ [item], by simp [listed],
          (importing.apart apart fun _ => nested.built).copy succeed listed new built⟩
      have copying : SameCounts dir middle
          ((middle.afterCopy site dir item).afterMark site dir item) :=
        .trans (.afterCopy item middle) (.afterMark item _)
      exact ⟨rfl, last, below, ((SameCounts.of_apart apart).trans copying).trans counts, finished⟩

/-- Nothing that is needed waits once the goal is built. -/
theorem PlainBook.Needed.finished (complete : book.Complete) (present : site.HasRecipe goal)
    (built : Built world goal)
    (idle : ∀ other, book.Reaches goal other → Idle book start goal world other)
    (needed : book.Needed start goal dir) :
    book.Reaches goal dir ∧ site.HasRecipe dir ∧ begun dir world.log = 1 ∧
      ended dir world.log = 1 ∧ Imported book start world dir := by
  induction needed with
  | goal unbuilt =>
      cases idle goal .refl with
      | waiting _ _ fresh =>
          have already := fresh.marks exportMark isMark_export built
          simp [unbuilt] at already
      | finished begun ended _ _ imports => exact ⟨.refl, present, begun, ended, imports⟩
  | @listed dir item _ member unmarked unbuilt ih =>
      obtain ⟨reached, found, _, _, imports⟩ := ih
      have lists : book.Lists (site.itemDir item) dir := ⟨found, item, member, rfl⟩
      cases idle (site.itemDir item) (reached.tail lists) with
      | waiting _ _ fresh =>
          have already := fresh.marks exportMark isMark_export ((imports item member).2 unmarked).built
          simp [unbuilt] at already
      | finished begun ended _ _ imports =>
          exact ⟨reached.tail lists, (complete.found _ _ lists).2, begun, ended, imports⟩

theorem twoRecipes_app (outcome : Nat → Outcome) : (twoRecipes outcome).HasRecipe appDir := by
  have other : appDir ≠ libDir := by decide
  simp [Site.HasRecipe, twoRecipes, other]

theorem twoPlain_complete (outcome : Nat → Outcome) : (twoPlain outcome).Complete where
  imports dir _ := by
    by_cases app : dir = appDir <;> simp [twoPlain, app]
  found dep dir listed := by
    obtain ⟨rfl, rfl⟩ := twoPlain_lists listed
    simp [Site.HasRecipe, twoRecipes]

end BotBrew.Cookbook
