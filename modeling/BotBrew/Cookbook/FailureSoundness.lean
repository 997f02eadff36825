import BotBrew.Cookbook.FuelProperties
import BotBrew.Cookbook.PlainProperties
import BotBrew.Cookbook.Waiting

/-! Failures during `botbrew recipe build`.

The recipe that is built itself stops at its first failing command. The ones it
imports run in an `&&` list, where errexit has no effect: they go on after a
failure, mark themselves as built and report success. -/

set_option autoImplicit false

namespace BotBrew.Cookbook

open Shell

/-- The recipe in `dir` had `export/.d` when the run began, or its
`botbrew_do_build` ran to its last command in this run, no command of it that is
not guarded failed, and the same holds of the dependencies it imported. -/
inductive Vouched (site : Site) (start : Dir → Tree) (log : List Event) : Dir → Prop where
  | already {dir} : (start dir exportMark).isSome → Vouched site start log dir
  | ran {dir} :
      .touched dir 0 ∈ log →
      (∀ code, .ran dir false code ∈ log → code = 0) →
      (∀ item exported, .copied dir item exported ∈ log →
        Vouched site start log (site.itemDir item)) →
      Vouched site start log dir

/-- What a run promises about failures: every marker it creates is vouched for,
and a failure of an unguarded command anywhere makes it exit non-zero. -/
structure FailureSound (site : Site) (start : Dir → Tree) (code : Status) (after : World) :
    Prop where
  export_marks : ∀ dir, start dir exportMark = none → (after.tree dir exportMark).isSome →
    Vouched site start after.log dir
  import_marks : ∀ dir item, start dir (importMark item) = none →
    (after.tree dir (importMark item)).isSome → Vouched site start after.log (site.itemDir item)
  exit_status : ∀ dir failed, .ran dir false failed ∈ after.log → failed ≠ 0 → code ≠ 0

/-- No unguarded command fails in the `botbrew_do_build` of an imported recipe. -/
def ImportsSucceed (top : Dir) (log : List Event) : Prop :=
  ∀ dir ≠ top, ∀ code, .ran dir false code ∈ log → code = 0

/-- The imported recipes can create their `export/.d`. -/
def ImportsTouch (top : Dir) (log : List Event) : Prop :=
  ∀ dir ≠ top, ∀ code, .touched dir code ∈ log → code = 0

variable {site : Site} {book : PlainBook site}

theorem Run.steps_touch {dir : Dir} {steps : List Step} {world after : World} {flow : Flow}
    (run : Run book (.steps false dir steps) world flow after) :
    (∃ code, flow = .done code) ∧ ∃ code, .ran dir false code ∈ after.log ∧
      .touched dir code ∈ after.log ∧ (code = 0 → Built after dir) := by
  generalize shape : Task.steps false dir steps = task at run
  induction run generalizing steps with
  | touch =>
      cases shape
      refine ⟨⟨_, rfl⟩, _, List.mem_cons_self, List.mem_cons_of_mem _ List.mem_cons_self,
        fun success => ?_⟩
      simp [Built, World.afterTouch, success, touchPath_self]
  | external _ _ ih | importing _ _ _ ih =>
      cases shape
      exact ih rfl
  | import_exit run _ =>
      cases shape
      generalize flow' : Flow.exit _ = flow at run
      cases run with
      | mkdir _ run => rcases run.items_flow with rfl | rfl <;> cases flow'
  | _ => cases shape

theorem Run.built_of_done {dir : Dir} {world after : World}
    (run : Run book (.recipe false dir) world (.done 0) after)
    (succeed : ∀ code, .ran dir false code ∈ after.log → code = 0) : Built after dir := by
  generalize shape : Flow.done 0 = flow at run
  cases run with
  | missing => cases shape
  | built _ built => exact built
  | @build _ _ _ inner middle _ _ run =>
      obtain ⟨⟨code, rfl⟩, touched, ran, _, built⟩ := run.steps_touch
      exact built (succeed touched (List.mem_cons_of_mem _ ran))

/-! The invariant of a run whose imports succeed -/

structure MarksVouched (book : PlainBook site) (start : Dir → Tree) (world : World) : Prop where
  built : ∀ dir, Built world dir → (start dir exportMark).isSome ∨ .touched dir 0 ∈ world.log
  copied : ∀ dir item exported, .copied dir item exported ∈ world.log →
    book.Lists (site.itemDir item) dir ∧ Built world (site.itemDir item)
  marked : ∀ dir item, start dir (importMark item) = none →
    (world.tree dir (importMark item)).isSome → Built world (site.itemDir item)

namespace MarksVouched

variable {start : Dir → Tree} {dir : Dir} {world after : World}

/-- Steps that leave the markers alone and copy nothing keep the invariant. -/
theorem of_same_marks (vouched : MarksVouched book start world)
    (marks : ∀ dir path, IsMark path → after.tree dir path = world.tree dir path)
    (log : ∀ event ∈ world.log, event ∈ after.log)
    (copies : ∀ dir item exported, .copied dir item exported ∈ after.log →
      .copied dir item exported ∈ world.log) : MarksVouched book start after := by
  have built : ∀ dir, Built after dir ↔ Built world dir := by
    intro dir
    rw [Built, Built, marks dir exportMark isMark_export]
  refine ⟨fun dir present => ?_, fun dir item exported member => ?_,
    fun dir item absent present => ?_⟩
  · exact (vouched.built dir ((built dir).mp present)).imp_right (log _)
  · obtain ⟨listed, present⟩ := vouched.copied dir item exported (copies dir item exported member)
    exact ⟨listed, (built _).mpr present⟩
  · rw [marks dir (importMark item) (isMark_import item)] at present
    exact (built _).mpr (vouched.marked dir item absent present)

theorem record (vouched : MarksVouched book start world) (event : Event)
    (noCopy : ∀ dir item exported, event ≠ .copied dir item exported) :
    MarksVouched book start (world.record event) := by
  refine vouched.of_same_marks (fun _ _ _ => rfl)
    (fun _ member => List.mem_cons_of_mem _ member) fun dir item exported member => ?_
  rcases List.mem_cons.mp member with same | member
  · exact absurd same.symm (noCopy dir item exported)
  · exact member

theorem tick (vouched : MarksVouched book start world) : MarksVouched book start world.tick :=
  vouched.of_same_marks (fun _ _ _ => rfl) (fun _ member => member) fun _ _ _ member => member

theorem afterCall (vouched : MarksVouched book start world) (name : String) (flow : Flow) :
    MarksVouched book start (world.afterCall dir name flow) := by
  cases flow with
  | exit code => exact vouched
  | done code => exact vouched.record _ (by simp)
  | ret code => exact vouched.record _ (by simp)

theorem afterExternal (vouched : MarksVouched book start world) (guarded : Bool) (effect : Effect)
    (vars : Vars) : MarksVouched book start (world.afterExternal site dir guarded effect vars) := by
  refine MarksVouched.record ?_ _ (by simp)
  refine vouched.of_same_marks (fun other path mark => ?_) (fun _ member => member)
    fun _ _ _ member => member
  by_cases same : other = dir
  · subst same
    rw [World.update_tree_self, effect.keeps_marks _ _ _ _ mark, World.tick_tree]
  · rw [World.update_tree_of_ne same, World.tick_tree]

theorem afterTouch (vouched : MarksVouched book start world) :
    MarksVouched book start (world.afterTouch site dir) := by
  have within : Within book dir world (world.afterTouch site dir) := within_afterTouch world
  refine ⟨fun other present => ?_, fun other item exported member => ?_,
    fun other item absent present => ?_⟩
  · by_cases touched : other = dir ∧ (site.outcome world.clock).code = 0
    · obtain ⟨rfl, success⟩ := touched
      exact .inr (by simp [World.afterTouch, success])
    · have before : Built world other := by
        by_cases same : other = dir
        · subst same
          simpa [Built, World.afterTouch, not_and.mp touched rfl] using present
        · simpa [Built, World.afterTouch, World.update_tree_of_ne same] using present
      exact (vouched.built other before).imp_right within.mem_log
  · have before : .copied other item exported ∈ world.log := by
      simpa [World.afterTouch] using member
    exact (vouched.copied other item exported before).imp_right within.built
  · refine within.built (vouched.marked other item absent ?_)
    by_cases same : other = dir
    · subst same
      by_cases success : (site.outcome world.clock).code = 0
      · simpa [World.afterTouch, success,
          touchPath_of_ne (exportMark_ne_importMark item).symm] using present
      · simpa [World.afterTouch, success] using present
    · simpa [World.afterTouch, World.update_tree_of_ne same] using present

theorem afterCopy (vouched : MarksVouched book start world) {item : String}
    (listed : book.Lists (site.itemDir item) dir) (built : Built world (site.itemDir item)) :
    MarksVouched book start (world.afterCopy site dir item) := by
  have marks : ∀ other path, IsMark path →
      (world.afterCopy site dir item).tree other path = world.tree other path := by
    intro other path mark
    have same : (world.afterCopy site dir item).tree other path =
        (world.tick.update dir (copyTree "export" "import" (site.outcome world.clock)
          (world.tree (site.itemDir item)))).tree other path := by
      unfold World.afterCopy
      split <;> rfl
    rw [same]
    by_cases here : other = dir
    · subst here
      rw [World.update_tree_self, copyTree_mark _ _ _ _ _ mark, World.tick_tree]
    · rw [World.update_tree_of_ne here, World.tick_tree]
  have within : Within book dir world (world.afterCopy site dir item) := within_afterCopy world item
  refine ⟨fun other present => ?_, fun other item' exported member => ?_,
    fun other item' absent present => ?_⟩
  · rw [Built, marks other exportMark isMark_export] at present
    exact (vouched.built other present).imp_right within.mem_log
  · have copied : (other = dir ∧ item' = item) ∨ .copied other item' exported ∈ world.log := by
      unfold World.afterCopy at member
      split at member
      · rcases List.mem_cons.mp member with same | member
        · cases same
          exact .inl ⟨rfl, rfl⟩
        · exact .inr member
      · exact .inr member
    rcases copied with ⟨rfl, rfl⟩ | before
    · exact ⟨listed, within.built built⟩
    · exact (vouched.copied other item' exported before).imp_right within.built
  · rw [marks other (importMark item') (isMark_import item')] at present
    exact within.built (vouched.marked other item' absent present)

theorem afterMark (vouched : MarksVouched book start world) {item : String}
    (built : Built world (site.itemDir item)) :
    MarksVouched book start (world.afterMark site dir item) := by
  have within : Within book dir world (world.afterMark site dir item) := within_afterMark world item
  refine ⟨fun other present => ?_, fun other item' exported member => ?_,
    fun other item' absent present => ?_⟩
  · have before : Built world other := by
      by_cases same : other = dir
      · subst same
        by_cases success : (site.outcome world.clock).code = 0
        · simpa [Built, World.afterMark, success,
            touchPath_of_ne (exportMark_ne_importMark item)] using present
        · simpa [Built, World.afterMark, success] using present
      · simpa [Built, World.afterMark, World.update_tree_of_ne same] using present
    exact (vouched.built other before).imp_right within.mem_log
  · exact (vouched.copied other item' exported member).imp_right within.built
  · by_cases new : item' = item
    · subst new
      exact within.built built
    · refine within.built (vouched.marked other item' absent ?_)
      have different : importMark item' ≠ importMark item :=
        fun same => new (importMark_injective same)
      by_cases same : other = dir
      · subst same
        by_cases success : (site.outcome world.clock).code = 0
        · simpa [World.afterMark, success, touchPath_of_ne different] using present
        · simpa [World.afterMark, success] using present
      · simpa [World.afterMark, World.update_tree_of_ne same] using present

end MarksVouched

variable {start : Dir → Tree} {top : Dir}

theorem PlainBook.FiniteAcyclic.below_top (acyclic : book.FiniteAcyclic) {dir dep : Dir}
    (reached : book.Reaches top dir) (listed : book.Lists dep dir) : dep ≠ top := by
  rintro rfl
  exact acyclic.not_reaches listed reached

theorem PlainBook.Reaches.item {dir dep : Dir} (reached : book.Reaches top dir)
    (listed : book.Lists dep dir) : book.Reaches top dep :=
  Relation.ReflTransGen.tail reached listed

theorem Run.marks_vouched (acyclic : book.FiniteAcyclic) {task : Task} {world after : World}
    {flow : Flow} (run : Run book task world flow after) (valid : task.Valid book)
    (reached : book.Reaches top task.dir) (succeed : ImportsSucceed top after.log)
    (vouched : MarksVouched book start world) : MarksVouched book start after := by
  -- the hypothesis on the final log covers every earlier one, as logs only grow
  have earlier : ∀ {dir : Dir} {middle after : World}, Within book dir middle after →
      ImportsSucceed top after.log → ImportsSucceed top middle.log :=
    fun within succeed dir other code member => succeed dir other code (within.mem_log member)
  have nested : ∀ {dir : Dir} {item : String} {rest : List String} {world middle : World},
      (Task.items dir (item :: rest)).Valid book → book.Reaches top dir →
      Run book (.recipe false (site.itemDir item)) world (.done 0) middle →
      ImportsSucceed top middle.log → Built middle (site.itemDir item) :=
    fun valid reached run succeed =>
      run.built_of_done (succeed _ (acyclic.below_top reached valid.lists))
  have copied : ∀ {dir : Dir} {item : String} {middle : World} {other : Dir},
      Built middle other → Built (middle.afterCopy site dir item) other :=
    fun {dir item middle other} built =>
      (within_afterCopy middle item : Within book dir _ _).built built
  induction run with
  | missing | built | all_imported | no_directory => exact vouched
  | build present _ run ih =>
      exact (ih present reached (earlier (within_afterCall _ _ _) succeed)
        (vouched.record _ (by simp))).afterCall _ _
  | touch => exact vouched.afterTouch
  | external_exit => exact vouched.afterExternal _ _ _
  | external _ _ ih => exact ih valid reached succeed (vouched.afterExternal _ _ _)
  | import_exit _ ih =>
      exact (ih valid reached (earlier (.record (by rfl) _) succeed) vouched).record _ (by simp)
  | importing _ rest importIH restIH =>
      have within := (Within.record (by rfl) _).trans (rest.within valid)
      exact restIH valid reached succeed
        ((importIH valid reached (earlier within succeed) vouched).record _ (by simp))
  | mkdir_exit =>
      exact (vouched.record _ (by simp)).tick
  | mkdir _ _ ih =>
      exact (ih ⟨valid, fun _ member => member⟩ reached
        (earlier (within_afterCall _ _ _) succeed) (vouched.record _ (by simp)).tick).afterCall _ _
  | imported _ _ ih => exact ih valid.tail reached succeed vouched
  | build_failed _ _ _ _ ih => exact ih trivial (reached.item valid.lists) succeed vouched
  | copy_failed _ _ run _ ih =>
      have before := earlier (within_afterCopy _ _) succeed
      exact (ih trivial (reached.item valid.lists) before vouched).afterCopy valid.lists
        (nested valid reached run before)
  | mark_failed _ _ run _ _ ih =>
      have copy := earlier (within_afterMark _ _) succeed
      have before := earlier (within_afterCopy _ _) copy
      have built := nested valid reached run before
      exact ((ih trivial (reached.item valid.lists) before vouched).afterCopy valid.lists
        built).afterMark (copied built)
  | import_item _ _ run _ _ rest buildIH restIH =>
      have marked := earlier (rest.within valid.tail) succeed
      have copy := earlier (within_afterMark _ _) marked
      have before := earlier (within_afterCopy _ _) copy
      have built := nested valid reached run before
      exact restIH valid.tail reached succeed
        (((buildIH trivial (reached.item valid.lists) before vouched).afterCopy valid.lists
          built).afterMark (copied built))

/-! The recipe that is built itself -/

def Unfailed (dir : Dir) (log : List Event) : Prop := ∀ code, .ran dir false code ∈ log → code = 0

theorem Run.import_effective {dir : Dir} {world after : World} {flow : Flow}
    (run : Run book (.botbrew_import true dir) world flow after) :
    flow = .done 0 ∨ ∃ code, flow = .exit code ∧ code ≠ 0 := by
  cases run with
  | mkdir_exit failed => exact .inr ⟨_, rfl, failed⟩
  | mkdir _ run =>
      rcases run.items_flow with rfl | rfl
      · exact .inl rfl
      · exact .inr ⟨1, rfl, one_ne_zero⟩

/-- With errexit in effect a body either has no failure, or stops at one before
its `touch` succeeds. -/
theorem Run.steps_unfailed {steps : List Step} {world after : World} {flow : Flow}
    (run : Run book (.steps true top steps) world flow after)
    (ready : (Task.steps true top steps).Underway book world) (unfailed : Unfailed top world.log)
    (untouched : .touched top 0 ∉ world.log) :
    (flow = .done 0 ∧ Unfailed top after.log) ∨
      (∃ code, flow = .exit code ∧ code ≠ 0) ∧ .touched top 0 ∉ after.log := by
  -- an import logs no command of the recipe that it imports for, and does not build it
  have imported : ∀ {rest : List Step} {flow : Flow} {world middle : World},
      (Task.steps true top (.botbrew_import :: rest)).Underway book world →
      Run book (.botbrew_import true top) world flow middle →
      Quiet top world middle ∧ middle.tree top exportMark = world.tree top exportMark := by
    intro rest flow world middle ready run
    have imports := ready.2.2 _ List.mem_cons_self
    exact (run.spares ⟨ready.1, ready.2.1, imports⟩ (.none book world top)).2 trivial
  generalize shape : Task.steps true top steps = task at run
  induction run generalizing steps with
  | @touch _ _ world =>
      cases shape
      by_cases success : (site.outcome world.clock).code = 0
      · refine .inl ⟨by simp [success], fun code member => ?_⟩
        rcases List.mem_cons.mp member with same | member
        · cases same
          exact success
        · exact unfailed code (by simpa using member)
      · refine .inr ⟨⟨_, settle_effective success, success⟩, fun member => untouched ?_⟩
        simpa [World.afterTouch, Ne.symm success] using member
  | external_exit failed =>
      cases shape
      refine .inr ⟨⟨_, rfl, failed⟩, fun member => untouched ?_⟩
      simpa [World.afterExternal] using member
  | external goes _ ih =>
      cases shape
      refine ih ready.afterExternal (fun code member => ?_) (fun member => untouched ?_) rfl
      · rcases List.mem_cons.mp member with same | member
        · cases same
          exact goes rfl rfl
        · exact unfailed code member
      · simpa [World.afterExternal] using member
  | import_exit run _ =>
      cases shape
      rcases run.import_effective with impossible | ⟨code, same, failed⟩
      · cases impossible
      · cases same
        refine .inr ⟨⟨_, rfl, failed⟩, fun member => untouched ?_⟩
        exact (imported ready run).1.mem_log rfl (List.mem_of_ne_of_mem (by simp) member)
  | importing run _ _ ih =>
      cases shape
      obtain ⟨quiet, same⟩ := imported ready run
      have success := run.import_effective
      simp only [Flow.done.injEq, reduceCtorEq, false_and, exists_false, or_false] at success
      refine ih ⟨ready.1, same.trans ready.2.1, fun step member => ready.2.2 step (.tail _ member)⟩
        (fun code member => ?_) (fun member => untouched ?_) rfl
      · rcases List.mem_cons.mp member with same | member
        · cases same
          exact success
        · exact unfailed code (quiet.mem_log rfl member)
      · exact quiet.mem_log rfl (List.mem_of_ne_of_mem (by simp) member)
  | _ => cases shape

/-- The run of `top` exits with zero only if no unguarded command of `top` failed. -/
theorem Run.top_unfailed {world after : World} {code : Status}
    (run : Run book (.recipe true top) world (.done code) after) (fresh : world.log = []) :
    Unfailed top after.log ∨ code ≠ 0 ∧ .touched top 0 ∉ after.log := by
  generalize shape : Flow.done code = flow at run
  cases run with
  | missing | built => exact .inl (by simp [Unfailed, fresh])
  | @build _ _ _ inner middle present unbuilt run =>
      have outcome := run.steps_unfailed ⟨present, unbuilt, fun _ member => member⟩
        (by simp [Unfailed, fresh]) (by simp [fresh])
      rcases outcome with ⟨rfl, unfailed⟩ | ⟨⟨failure, rfl, failed⟩, untouched⟩
      · refine .inl fun code member => unfailed code ?_
        exact List.mem_of_ne_of_mem (by simp) member
      · cases shape
        exact .inr ⟨failed, untouched⟩

theorem MarksVouched.vouches (acyclic : book.FiniteAcyclic) {world : World}
    (vouched : MarksVouched book start world) (succeed : ImportsSucceed top world.log)
    (topRan : .touched top 0 ∈ world.log → Unfailed top world.log) (dir : Dir)
    (built : Built world dir) : Vouched site start world.log dir := by
  induction dir using acyclic.wellFounded.induction with
  | _ dir ih =>
      rcases vouched.built dir built with already | touched
      · exact .already already
      · refine .ran touched (fun code member => ?_) fun item exported member => ?_
        · by_cases same : dir = top
          · subst same
            exact topRan touched code member
          · exact succeed dir same code member
        · obtain ⟨listed, present⟩ := vouched.copied dir item exported member
          exact ih (site.itemDir item) listed present

theorem Run.failureSound (acyclic : book.FiniteAcyclic) {after : World} {code : Status}
    (run : Run book (.recipe true top) (.start start) (.done code) after)
    (succeed : ImportsSucceed top after.log) : FailureSound site start code after := by
  have vouched : MarksVouched book start after := by
    refine run.marks_vouched acyclic trivial Relation.ReflTransGen.refl succeed ⟨?_, ?_, ?_⟩
    · exact fun dir built => .inl built
    · intro dir item exported member
      cases member
    · intro dir item absent present
      simp [World.start, absent] at present
  have topUnfailed := run.top_unfailed rfl
  have vouches := vouched.vouches acyclic succeed fun touched =>
    topUnfailed.resolve_right fun stopped => stopped.2 touched
  refine ⟨fun dir _ built => vouches dir built, fun dir item absent present => ?_,
    fun dir failed member failing => ?_⟩
  · exact vouches _ (vouched.marked dir item absent present)
  · have same : dir = top := by
      by_contra other
      exact failing (succeed dir other failed member)
    subst same
    rcases topUnfailed with unfailed | stopped
    · exact absurd (unfailed failed member) failing
    · exact stopped.1

/-! Failures of imported recipes -/

/-- The build of `dir` began without its marker and came to its `touch`. -/
def Completed (world after : World) (dir : Dir) : Prop :=
  world.tree dir exportMark = none ∧
    ∃ code, .touched dir code ∈ after.log ∧ (code = 0 → Built after dir)

theorem Completed.earlier {dir other : Dir} {world middle after : World}
    (completed : Completed middle after other) (within : Within book dir world middle) :
    Completed world after other := by
  refine ⟨?_, completed.2⟩
  cases present : world.tree other exportMark with
  | none => rfl
  | some file =>
      have kept := within.marks other exportMark isMark_export (by simp [present])
      simp [completed.1] at kept

theorem Completed.later {dir other : Dir} {world middle after : World}
    (completed : Completed world middle other) (within : Within book dir middle after) :
    Completed world after other := by
  obtain ⟨absent, code, touched, built⟩ := completed
  exact ⟨absent, code, within.mem_log touched, fun success => within.built (built success)⟩

/-- The recipe whose body may still be running when the task ends. -/
def Task.Pending : Task → Dir → Prop
  | .recipe errexit dir, other => errexit = true ∧ other = dir
  | .steps _ dir _, other | .botbrew_import _ dir, other | .items dir _, other => other = dir

theorem afterCall_ran {dir other : Dir} {name : String} {world : World} {flow : Flow}
    {guarded : Bool} {code : Status}
    (member : .ran other guarded code ∈ (world.afterCall dir name flow).log) :
    .ran other guarded code ∈ world.log := by
  cases flow with
  | exit code => exact member
  | done code | ret code => simpa [World.afterCall] using member

theorem afterCopy_ran {dir other : Dir} {item : String} {world : World} {guarded : Bool}
    {code : Status} (member : .ran other guarded code ∈ (world.afterCopy site dir item).log) :
    .ran other guarded code ∈ world.log := by
  unfold World.afterCopy at member
  split at member
  · simpa using member
  · exact member

/-- A command of a recipe that is not pending belongs to a completed build. -/
theorem Run.completed {task : Task} {world after : World} {flow : Flow}
    (run : Run book task world flow after) (valid : task.Valid book) {other : Dir}
    {guarded : Bool} {code : Status} (settled : ¬ task.Pending other)
    (member : .ran other guarded code ∈ after.log) :
    .ran other guarded code ∈ world.log ∨ Completed world after other := by
  have earlier : ∀ {dir : Dir} {world middle after : World}, Within book dir world middle →
      .ran other guarded code ∈ world.log ∨ Completed middle after other →
      .ran other guarded code ∈ world.log ∨ Completed world after other :=
    fun within known => known.imp_right fun completed => completed.earlier within
  have later : ∀ {dir : Dir} {world middle after : World}, Within book dir middle after →
      .ran other guarded code ∈ world.log ∨ Completed world middle other →
      .ran other guarded code ∈ world.log ∨ Completed world after other :=
    fun within known => known.imp_right fun completed => completed.later within
  induction run with
  | missing | built | no_directory | all_imported => exact .inl member
  | @build errexit dir world flow after present absent run ih =>
      by_cases here : other = dir
      · subst here
        have ignored : errexit = false := by simpa [Task.Pending] using settled
        subst ignored
        obtain ⟨_, touched, _, mem, built⟩ := run.steps_touch
        exact later (within_afterCall _ _ _) (.inr ⟨absent, touched, mem, built⟩)
      · refine later (within_afterCall _ _ _) ?_
        rcases ih present here (afterCall_ran member) with before | completed
        · exact .inl (by simpa using before)
        · exact earlier (.record (by rfl) _) (.inr completed)
  | touch =>
      have elsewhere : other ≠ _ := settled
      exact .inl (by simpa [World.afterTouch, elsewhere] using member)
  | external_exit =>
      have elsewhere : other ≠ _ := settled
      exact .inl (by simpa [World.afterExternal, elsewhere] using member)
  | external _ _ ih =>
      have elsewhere : other ≠ _ := settled
      rcases ih valid settled member with before | completed
      · exact .inl (by simpa [World.afterExternal, elsewhere] using before)
      · exact earlier (within_afterExternal _ _ _ _) (.inr completed)
  | import_exit _ ih =>
      have elsewhere : other ≠ _ := settled
      exact later (.record (by rfl) _) (ih valid settled (by simpa [elsewhere] using member))
  | importing run rest importIH restIH =>
      have elsewhere : other ≠ _ := settled
      rcases restIH valid settled member with before | completed
      · refine later ((Within.record (by rfl) _).trans (rest.within valid))
          (importIH valid settled ?_)
        simpa [elsewhere] using before
      · exact earlier ((run.within valid).trans (.record (by rfl) _)) (.inr completed)
  | mkdir_exit => exact .inl (by simpa using member)
  | mkdir _ _ ih =>
      refine later (within_afterCall _ _ _) ?_
      rcases ih ⟨valid, fun _ member => member⟩ settled (afterCall_ran member) with before | completed
      · exact .inl (by simpa using before)
      · exact earlier ((Within.record (by rfl) _).trans (within_tick _)) (.inr completed)
  | imported _ _ ih => exact ih valid.tail settled member
  | build_failed _ _ _ _ ih => exact ih trivial (by simp [Task.Pending]) member
  | copy_failed _ _ run _ ih =>
      exact later (within_afterCopy _ _)
        (ih trivial (by simp [Task.Pending]) (afterCopy_ran member))
  | mark_failed _ _ run _ _ ih =>
      exact later ((within_afterCopy _ _).trans (within_afterMark _ _))
        (ih trivial (by simp [Task.Pending]) (afterCopy_ran member))
  | @import_item dir _ item _ middle _ _ _ _ run _ _ rest buildIH restIH =>
      have within : Within book dir middle
          ((middle.afterCopy site dir item).afterMark site dir item) :=
        (within_afterCopy _ _).trans (within_afterMark _ _)
      rcases restIH valid.tail settled member with before | completed
      · exact later (within.trans (rest.within valid.tail))
          (buildIH trivial (by simp [Task.Pending]) (afterCopy_ran before))
      · exact earlier ((Within.of_lists valid.lists (run.within trivial)).trans within)
          (.inr completed)

/-- A failed import is a failure that the run does not answer for, unless the
failing recipe could not even create its marker. -/
theorem Run.importsSucceed {start : Dir → Tree} {top : Dir} {after : World} {code : Status}
    (run : Run book (.recipe true top) (.start start) (.done code) after)
    (touches : ImportsTouch top after.log) (sound : FailureSound site start code after) :
    ImportsSucceed top after.log := by
  intro dir other failed member
  have settled : ¬ (Task.recipe true top).Pending dir := by simp [Task.Pending, other]
  rcases run.completed trivial settled member with old | completed
  · cases old
  · obtain ⟨absent, touch, touched, built⟩ := completed
    have absent : start dir exportMark = none := absent
    have vouched := sound.export_marks dir absent (built (touches dir other touch touched))
    cases vouched with
    | already present => simp [absent] at present
    | ran _ succeeded _ => exact succeeded failed member

/-- Every build of every recipe ends, and it is sound about failures exactly
where no unguarded command of an imported recipe fails. -/
theorem botbrew_build_failureSound (acyclic : book.FiniteAcyclic) (dir : Dir)
    (tree : Dir → Tree) :
    ∃ enough, ∀ fuel ≥ enough, ∃ code after,
      botbrew site fuel dir ["build"] (.start tree) = some (code, after) ∧
        (ImportsSucceed dir after.log → FailureSound site tree code after) ∧
        (ImportsTouch dir after.log → FailureSound site tree code after →
          ImportsSucceed dir after.log) := by
  obtain ⟨enough, runs⟩ := botbrew_build_runs acyclic dir (.start tree)
  refine ⟨enough, fun fuel bound => ?_⟩
  obtain ⟨code, after, result, run⟩ := runs fuel bound
  exact ⟨code, after, result, run.failureSound acyclic, run.importsSucceed⟩

/-- The fifth command of the run fails, by which `app` copies what `lib` exports. -/
def copyFails (clock : Nat) : Outcome := { code := if clock = 4 then 1 else 0, progress _ := true }

/-- `lib` is built, and `app` fails to import it. -/
theorem botbrew_build_failureSound_two :
    ∃ fuel code after,
      botbrew (twoRecipes copyFails) fuel appDir ["build"] (.start fun _ _ => none) = some (code, after) ∧
        .ran appDir false 1 ∈ after.log ∧ (after.tree libDir exportMark).isSome ∧
        FailureSound (twoRecipes copyFails) (fun _ _ => none) code after := by
  obtain ⟨enough, sound⟩ :=
    botbrew_build_failureSound (twoPlain_acyclic copyFails) appDir fun _ _ => none
  obtain ⟨code, after, result, sound, -⟩ := sound enough le_rfl
  have observed : (botbrew (twoRecipes copyFails) 7 appDir ["build"] (.start fun _ _ => none)).map
      (fun ending => (ending.2.log.all fun
          | .ran dir false code => dir = appDir ∨ code = 0
          | _ => true,
        ending.2.log.any fun
          | .ran dir false code => dir = appDir ∧ code = 1
          | _ => false,
        (ending.2.tree libDir exportMark).isSome)) = some (true, true, true) := by
    decide +kernel
  obtain ⟨ending, short, observed⟩ := Option.map_eq_some_iff.mp observed
  obtain rfl := botbrew_unique short result
  simp only [Prod.mk.injEq] at observed
  obtain ⟨succeeds, fails, marked⟩ := observed
  refine ⟨enough, code, after, result, ?_, marked, sound fun dir other code member => ?_⟩
  · obtain ⟨event, member, failed⟩ := List.any_eq_true.mp fails
    split at failed
    · obtain ⟨rfl, rfl⟩ : _ = appDir ∧ _ = 1 := by simpa using failed
      exact member
    · cases failed
  · have allowed := List.all_eq_true.mp succeeds _ member
    simpa [other] using allowed

/-- The third command of the run fails, which is the `make install` of `lib`. -/
def installFails (clock : Nat) : Outcome := { code := if clock = 2 then 1 else 0, progress _ := true }

/-- `app` imports `lib`, the build of which fails: `lib` is marked as built, and
the run of `app` reports success. -/
theorem botbrew_build_unsound :
    ¬ ∀ (site : Site) (book : PlainBook site), book.FiniteAcyclic →
      ∀ (dir : Dir) (tree : Dir → Tree), ∃ enough, ∀ fuel ≥ enough, ∃ code after,
        botbrew site fuel dir ["build"] (.start tree) = some (code, after) ∧
          FailureSound site tree code after := by
  intro sound
  obtain ⟨enough, sound⟩ := sound (twoRecipes installFails) (twoPlain installFails)
    (twoPlain_acyclic installFails) appDir fun _ _ => none
  obtain ⟨code, after, result, sound⟩ := sound enough le_rfl
  have observed : (botbrew (twoRecipes installFails) 7 appDir ["build"]
      (.start fun _ _ => none)).map (fun ending => (ending.1, ending.2.log.any fun
        | .ran dir guarded code => dir = libDir ∧ guarded = false ∧ code = 1
        | _ => false)) = some (0, true) := by
    decide +kernel
  obtain ⟨ending, short, observed⟩ := Option.map_eq_some_iff.mp observed
  obtain rfl := botbrew_unique short result
  obtain ⟨success, failed⟩ := Prod.mk.inj observed
  obtain ⟨event, member, failed⟩ := List.any_eq_true.mp failed
  cases event with
  | ran dir guarded failure =>
      obtain ⟨rfl, rfl, rfl⟩ : dir = libDir ∧ guarded = false ∧ failure = 1 := by
        simpa using failed
      exact sound.exit_status libDir 1 member one_ne_zero success
  | _ => cases failed

end BotBrew.Cookbook
