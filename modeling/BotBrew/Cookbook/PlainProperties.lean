import BotBrew.Cookbook.FuelProperties
import BotBrew.Cookbook.Plain

/-! `Run` describes what a build of a cookbook of plain recipes does. In a
finite acyclic cookbook every build comes to an end. -/

set_option autoImplicit false

namespace BotBrew.Cookbook

open Shell Shell.Script

/-! Environments -/

def scriptFuns : List String :=
  ["botbrew_import", "botbrew_recipe", "_botbrew_do_isbuilt", "_botbrew_do_query",
    "_botbrew_do_build", "_botbrew_do_package", "_botbrew_do_clean", "_botbrew_do_distclean",
    "_botbrew_do_clobber"]

/-- The settings and functions of the script are as it started with them. -/
structure Env.Standard (site : Site) (env : Env) : Prop where
  vars : ∀ name ∈ scriptVars, env.vars name = site.vars name
  funs : ∀ name ∈ scriptFuns, env.funs name = site.funs name

theorem Site.env_standard (site : Site) : site.env.Standard site :=
  ⟨fun _ _ => rfl, fun _ _ => rfl⟩

theorem set_vars_of_ne {name other : String} (different : other ≠ name) (value : Value)
    (env : Env) : (env.set name value).vars other = env.vars other := by
  simp [Env.set, different]

@[simp] theorem set_funs (name : String) (value : Value) (env : Env) :
    (env.set name value).funs = env.funs := rfl

@[simp] theorem unset_vars (name : String) (env : Env) : (env.unset name).vars = env.vars := rfl

theorem foldl_set_vars (rows : List (String × Value)) (env : Env) {name : String}
    (absent : name ∉ rows.map Prod.fst) :
    (rows.foldl (fun env row => env.set row.1 row.2) env).vars name = env.vars name := by
  induction rows generalizing env with
  | nil => rfl
  | cons row rest ih =>
      simp only [List.map_cons, List.mem_cons, not_or] at absent
      rw [List.foldl_cons, ih (env.set row.1 row.2) absent.2]
      exact set_vars_of_ne absent.1 row.2 env

theorem foldl_set_funs (rows : List (String × Value)) (env : Env) :
    (rows.foldl (fun env row => env.set row.1 row.2) env).funs = env.funs := by
  induction rows generalizing env with
  | nil => rfl
  | cons row rest ih => rw [List.foldl_cons, ih, set_funs]

theorem foldl_unset_vars (names : List String) (env : Env) :
    (names.foldl (fun env name => env.unset name) env).vars = env.vars := by
  induction names generalizing env with
  | nil => rfl
  | cons name rest ih => rw [List.foldl_cons, ih, unset_vars]

theorem foldl_unset_funs (names : List String) (env : Env) (name : String) :
    (names.foldl (fun env name => env.unset name) env).funs name =
      if name ∈ names then none else env.funs name := by
  induction names generalizing env with
  | nil => simp
  | cons first rest ih =>
      rw [List.foldl_cons, ih]
      by_cases here : name = first
      · simp [here, Env.unset]
      · simp [here, Env.unset]

theorem reset_vars {name : String} (cwd : Dir) (env : Env) (member : name ∈ scriptVars) :
    (reset cwd env).vars name = env.vars name := by
  unfold reset resetVars
  rw [foldl_unset_vars]
  refine foldl_set_vars _ env ?_
  simp only [List.map_cons, List.map_nil]
  revert name
  decide

theorem reset_depend (cwd : Dir) (env : Env) : (reset cwd env).vars "PACKAGE_DEPEND" = [] := by
  unfold reset
  rw [foldl_unset_vars]
  simp [resetVars, Env.set]

theorem reset_funs (name : String) (cwd : Dir) (env : Env) :
    (reset cwd env).funs name = if name ∈ hooks then none else env.funs name := by
  unfold reset resetVars
  rw [foldl_unset_funs, foldl_set_funs]

theorem listDepends_vars (env : Env) {name : String} (other : name ≠ "i") :
    (listDepends env).vars name = env.vars name := by
  refine foldl_set_vars _ env fun member => other ?_
  obtain ⟨row, listed, rfl⟩ := List.mem_map.mp member
  obtain ⟨item, _, rfl⟩ := List.mem_map.mp listed
  rfl

theorem listDepends_funs (env : Env) : (listDepends env).funs = env.funs := foldl_set_funs _ env

theorem Env.Standard.set {site : Site} {env : Env} (standard : env.Standard site) {name : String}
    (foreign : name ∉ scriptVars) (value : Value) : (env.set name value).Standard site := by
  refine ⟨fun other member => ?_, standard.funs⟩
  have different : other ≠ name := fun same => foreign (same ▸ member)
  rw [set_vars_of_ne different]
  exact standard.vars other member

variable {site : Site} {book : PlainBook site} {env : Env} {dir : Dir}

/-- The environment in which the functions of a plain recipe run. -/
structure Entered (book : PlainBook site) (dir : Dir) (env : Env) : Prop where
  standard : env.Standard site
  depend : env.vars "PACKAGE_DEPEND" = book.depend dir
  build : env.funs "botbrew_do_build" = some (.body (buildBody (book.steps dir)))
  hooks : ∀ name ∈ hooks, name ≠ "botbrew_do_build" → env.funs name = none

theorem Entered.listDepends (entered : Entered book dir env) : Entered book dir (listDepends env) where
  standard := by
    refine ⟨fun name member => ?_, by rw [listDepends_funs]; exact entered.standard.funs⟩
    have other : name ≠ "i" := by
      revert name
      decide
    rw [listDepends_vars env other]
    exact entered.standard.vars name member
  depend := (listDepends_vars env (by decide)).trans entered.depend
  build := by rw [listDepends_funs]; exact entered.build
  hooks := by rw [listDepends_funs]; exact entered.hooks

theorem entered_source {recipe : Recipe} (book : PlainBook site) (standard : env.Standard site)
    (found : site.recipe dir "recipe" = some recipe) :
    Entered book dir (recipe.source dir (reset dir env)) := by
  have plain := book.plain dir recipe found
  refine ⟨⟨fun name member => ?_, fun name member => ?_⟩, ?_, ?_, fun name hook other => ?_⟩
  · rw [plain.vars_eq dir _ name member, reset_vars dir env member]
    exact standard.vars name member
  · have notBuild : name ≠ "botbrew_do_build" := by
      revert name
      decide
    have notHook : name ∉ hooks := by
      revert name
      decide
    rw [plain.funs_eq dir _ name notBuild, reset_funs, if_neg notHook]
    exact standard.funs name member
  · exact plain.depend_eq dir _ (reset_depend dir env)
  · exact plain.build_eq dir _
  · rw [plain.funs_eq dir _ name other, reset_funs, if_pos hook]

theorem Env.Standard.scalar {site : Site} {env : Env} (standard : env.Standard site)
    {name : String} (member : name ∈ scriptVars) : env.vars.scalar name = site.vars.scalar name := by
  unfold Vars.scalar
  rw [standard.vars name member]

theorem Env.Standard.itemDir {site : Site} {env : Env} (standard : env.Standard site)
    (item : String) : env.vars.itemDir item = site.itemDir item := by
  unfold Vars.itemDir
  rw [standard.scalar (by decide), standard.scalar (by decide)]
  rfl

/-! Commands -/

theorem test_eq (condition : Vars → Tree → Bool) (errexit : Bool) (locals : Locals)
    (world : World) :
    test condition errexit ⟨locals, world⟩ =
      some (settle errexit (if condition locals.env.vars (world.tree locals.cwd) then 0 else 1),
        ⟨locals, world⟩) := rfl

theorem copyExport_eq (standard : env.Standard site) (item : String) (errexit : Bool)
    (world : World) :
    copyExport site "import" item errexit ⟨⟨dir, env⟩, world⟩ =
      some (settle errexit (site.outcome world.clock).code,
        ⟨⟨dir, env⟩, world.afterCopy site dir item⟩) := by
  have src : env.vars.scalar "G_EXPORT" = "export" := standard.scalar (by decide)
  simp only [copyExport, reading, simple, standard.itemDir item, src, World.afterCopy]

theorem touchImport_eq (item : String) (errexit : Bool) (world : World) :
    touchImport site "import" item errexit ⟨⟨dir, env⟩, world⟩ =
      some (settle errexit (site.outcome world.clock).code,
        ⟨⟨dir, env⟩, world.afterMark site dir item⟩) := rfl

theorem touchExport_eq (standard : env.Standard site) (errexit : Bool) (world : World) :
    report false (touchExport site) errexit ⟨⟨dir, env⟩, world⟩ =
      some (settle errexit (site.outcome world.clock).code,
        ⟨⟨dir, env⟩, world.afterTouch site dir⟩) := by
  have mark : env.vars.scalar "G_EXPORT" = "export" := standard.scalar (by decide)
  simp [report, guardedBy, touchExport, reading, simple, mark, World.afterTouch, exportMark, record]

/-! Builds -/

/-- With this fuel `botbrew_recipe build` has a result in `dir`, and it is a run. -/
def RunsRecipe (book : PlainBook site) (dir : Dir) (fuel : Nat) : Prop :=
  ∀ errexit env world, env.Standard site →
    Runs (call site fuel "botbrew_recipe" ["build"]) errexit ⟨⟨dir, env⟩, world⟩
      fun flow after => after.locals = ⟨dir, env⟩ ∧ ∃ code, flow = settle errexit code ∧
        Run book (.recipe errexit dir) world (.done code) after.world

/-- If `botbrew_recipe build` has a result in `dir` with this fuel, it is a run. -/
def MeetsRecipe (total : Bool) (book : PlainBook site) (dir : Dir) (fuel : Nat) : Prop :=
  ∀ errexit env world, env.Standard site →
    Meets total (call site fuel "botbrew_recipe" ["build"]) errexit ⟨⟨dir, env⟩, world⟩
      fun flow after => after.locals = ⟨dir, env⟩ ∧ ∃ code, flow = settle errexit code ∧
        Run book (.recipe errexit dir) world (.done code) after.world

theorem runsRecipe_iff {fuel : Nat} : RunsRecipe book dir fuel ↔ MeetsRecipe true book dir fuel := by
  unfold RunsRecipe MeetsRecipe
  simp only [runs_iff_meets]

variable {total : Bool}

private theorem nested_runs {fuel : Nat} {item : String} {world : World}
    (standard : env.Standard site) (isDir : site.isDir (site.itemDir item))
    (below : MeetsRecipe total book (site.itemDir item) fuel) :
    Meets total (subshell (andIf (cd site fun vars => vars.itemDir item)
        (call site fuel "botbrew_recipe" ["build"]))) false ⟨⟨dir, env⟩, world⟩
      fun flow after => after.locals = ⟨dir, env⟩ ∧ ∃ code, flow = .done code ∧
        Run book (.recipe false (site.itemDir item)) world (.done code) after.world := by
  refine meets_subshell (meets_andIf (meets_simple ?_))
  simp only [standard.itemDir item, isDir, ↓reduceIte, settle_zero, Continues]
  refine (below false env world standard).mono ?_
  rintro flow after ⟨_, code, rfl, run⟩
  simpa [Flow.status] using run

private theorem no_directory_runs {fuel : Nat} {item : String} {world : World}
    (standard : env.Standard site) (isDir : site.isDir (site.itemDir item) = false) :
    Meets total (subshell (andIf (cd site fun vars => vars.itemDir item)
        (call site fuel "botbrew_recipe" ["build"]))) false ⟨⟨dir, env⟩, world⟩
      fun flow after => after = ⟨⟨dir, env⟩, world⟩ ∧ flow = .done 1 := by
  refine meets_subshell (meets_andIf (meets_simple ?_))
  simp [standard.itemDir item, isDir, Continues, Flow.status]

private theorem items_cons_runs {fuel : Nat} {item : String} {rest : List String} {errexit : Bool}
    {world : World} (standard : env.Standard site)
    (below : MeetsRecipe total book (site.itemDir item) fuel)
    (remaining : ∀ env world, env.Standard site →
      Meets total (forEach rest (importItem site (call site fuel) "import")) errexit ⟨⟨dir, env⟩, world⟩
        fun flow after => Run book (.items dir rest) world flow after.world) :
    Meets total (forEach (item :: rest) (importItem site (call site fuel) "import")) errexit
      ⟨⟨dir, env⟩, world⟩
      fun flow after => Run book (.items dir (item :: rest)) world flow after.world := by
  refine meets_seq (meets_seq (meets_setLocals ?_))
  have standard' : (env.set "item" [item]).Standard site := standard.set (by decide) [item]
  refine meets_ifElse (.of_eq (test_eq _ false ⟨dir, env.set "item" [item]⟩ world) ?_)
  generalize env.set "item" [item] = env at standard' ⊢
  simp only [settle_ignored, Continues]
  cases marked : world.tree dir (importMark item) with
  | some file =>
      have found : (world.tree dir ["import", ".import." ++ item]).isSome := by
        simpa [importMark] using congrArg Option.isSome marked
      simp only [found, ↓reduceIte]
      refine meets_pass ((remaining env world standard').mono fun flow after run => ?_)
      exact .imported found run
  | none =>
      have missing : (world.tree dir ["import", ".import." ++ item]).isSome = false := by
        simpa [importMark] using congrArg Option.isSome marked
      simp only [missing, Bool.false_eq_true, ↓reduceIte, one_ne_zero]
      refine meets_orIf (meets_andIf (meets_andIf ?_))
      cases isDir : site.isDir (site.itemDir item) with
      | false =>
          refine (no_directory_runs standard' isDir).mono ?_
          rintro flow after ⟨rfl, rfl⟩
          exact meets_returnWith (.no_directory marked isDir)
      | true =>
          refine (nested_runs standard' isDir below).mono ?_
          rintro flow ⟨locals, middle⟩ ⟨rfl, code, rfl, nested⟩
          by_cases failed : code = 0
          · subst failed
            refine Meets.of_eq (copyExport_eq standard' item false middle) ?_
            by_cases copied : (site.outcome middle.clock).code = 0
            · rw [copied]
              refine Meets.of_eq (touchImport_eq item false (middle.afterCopy site dir item)) ?_
              by_cases touched : (site.outcome (middle.afterCopy site dir item).clock).code = 0
              · rw [touched]
                refine (remaining env _ standard').mono fun flow after run => ?_
                exact .import_item marked isDir nested copied touched run
              · simp only [settle_ignored, Continues, touched, ↓reduceIte]
                exact meets_returnWith (.mark_failed marked isDir nested copied touched)
            · simp only [settle_ignored, Continues, copied, ↓reduceIte]
              exact meets_returnWith (.copy_failed marked isDir nested copied)
          · simp only [Continues, failed, ↓reduceIte]
            exact meets_returnWith (.build_failed marked isDir nested failed)

theorem items_runs {fuel : Nat} {items : List String} {errexit : Bool}
    (below : ∀ item ∈ items, MeetsRecipe total book (site.itemDir item) fuel) (env : Env) (world : World)
    (standard : env.Standard site) :
    Meets total (forEach items (importItem site (call site fuel) "import")) errexit ⟨⟨dir, env⟩, world⟩
      fun flow after => Run book (.items dir items) world flow after.world := by
  induction items generalizing env world with
  | nil => exact meets_pass .all_imported
  | cons item rest ih =>
      exact items_cons_runs standard (below item (by simp))
        (ih fun other member => below other (by simp [member]))

private theorem runs_logged {name : String} {body : Script} {errexit : Bool} {world : World}
    {post : Flow → Machine → Prop}
    (run : Meets total body errexit ⟨⟨dir, env⟩, world.record (.called dir name)⟩ fun flow after =>
      post flow ⟨after.locals, after.world.afterCall dir name flow⟩) :
    Meets total (logged name body) errexit ⟨⟨dir, env⟩, world⟩ post := by
  refine Meets.map (fun flow after => (flow, ⟨after.locals, after.world.afterCall dir name flow⟩)) ?_ run
  unfold logged
  simp only [record]
  cases body errexit ⟨⟨dir, env⟩, world.record (.called dir name)⟩ with
  | none => rfl
  | some ending =>
      obtain ⟨flow, after⟩ := ending
      cases flow <;> rfl

theorem runs_call {fuel : Nat} {name : String} {args : List String} {body : Fun}
    {errexit : Bool} {world : World} {post : Flow → Machine → Prop}
    (defined : env.funs name = some body)
    (run : Meets total (runFun site (call site fuel) name args body) errexit ⟨⟨dir, env⟩, world⟩
      fun flow after => post (called errexit flow) after) :
    Meets total (call site (fuel + 1) name args) errexit ⟨⟨dir, env⟩, world⟩ post := by
  refine (meets_function run).congr ?_
  simp only [call, reading, defined]

private theorem botbrew_import_eq {call : Call} (entered : Entered book dir env) (errexit : Bool)
    (world : World) :
    botbrew_import site call [] errexit ⟨⟨dir, env⟩, world⟩ =
      withLocals (fun locals => setVar "DEP" (book.depend dir) (setVar "DST" ["import"] locals))
        (seq (mkdir site) (forEach (book.depend dir) (importItem site call "import")))
        errexit ⟨⟨dir, env⟩, world⟩ := by
  have dst : env.vars.scalar "G_IMPORT" = "import" := entered.standard.scalar (by decide)
  simp [botbrew_import, reading, dst, entered.depend]

theorem import_runs {fuel : Nat} {errexit : Bool} {world : World}
    (entered : Entered book dir env)
    (below : ∀ item ∈ book.depend dir, MeetsRecipe total book (site.itemDir item) fuel) :
    Meets total (call site (fuel + 1) "botbrew_import" []) errexit ⟨⟨dir, env⟩, world⟩
      fun flow after => after.locals = ⟨dir, env⟩ ∧
        Run book (.botbrew_import errexit dir) world flow after.world := by
  refine runs_call (entered.standard.funs _ (by decide)) (runs_logged ?_)
  refine Meets.congr ?_ (botbrew_import_eq entered errexit _)
  refine meets_withLocals (meets_seq (meets_simple ?_))
  simp only [World.record_clock]
  have standard : ((env.set "DST" ["import"]).set "DEP" (book.depend dir)).Standard site :=
    (entered.standard.set (by decide) _).set (by decide) _
  have loop : (errexit = true → (site.outcome world.clock).code = 0) →
      Meets total (forEach (book.depend dir) (importItem site (call site fuel) "import")) errexit
        ⟨⟨dir, (env.set "DST" ["import"]).set "DEP" (book.depend dir)⟩,
          (world.record (.called dir "botbrew_import")).tick⟩ fun flow after =>
        Run book (.botbrew_import errexit dir) world (called errexit flow)
          (after.world.afterCall dir "botbrew_import" flow) := by
    intro made
    refine (items_runs below _ _ standard).mono fun flow after run => ?_
    exact .mkdir made run
  by_cases failed : errexit = true ∧ (site.outcome world.clock).code ≠ 0
  · obtain ⟨rfl, failed⟩ := failed
    rw [settle_effective failed]
    exact ⟨trivial, .mkdir_exit failed⟩
  · have made : errexit = true → (site.outcome world.clock).code = 0 := by
      intro effective
      by_contra failing
      exact failed ⟨effective, failing⟩
    have goes : settle errexit (site.outcome world.clock).code =
        .done (site.outcome world.clock).code := by
      cases errexit with
      | false => rfl
      | true => rw [made rfl, settle_zero]
    rw [goes]
    exact (loop made).mono fun flow after run => ⟨trivial, run⟩

theorem Run.import_flow {errexit : Bool} {world after : World} {flow : Flow}
    (run : Run book (.botbrew_import errexit dir) world flow after) :
    ∃ code, flow = .done code ∨ flow = .exit code := by
  cases run with
  | mkdir_exit => exact ⟨_, .inr rfl⟩
  | mkdir => exact called_cases errexit _

private theorem runCommands_step (call : Call) (step : Step) (rest : List Step) :
    runCommands site call (buildBody (step :: rest)) =
      seq (runCommand site call step.command) (runCommands site call (buildBody rest)) := by
  cases rest <;> rfl

private theorem external_eq (guarded : Bool) (effect : Effect) (errexit : Bool) (world : World) :
    report guarded (external site effect.run) errexit ⟨⟨dir, env⟩, world⟩ =
      some (if guarded then .done 0 else settle errexit (site.outcome world.clock).code,
        ⟨⟨dir, env⟩, world.afterExternal site dir guarded effect env.vars⟩) := by
  cases guarded with
  | false => simp [report, guardedBy, external, simple, World.afterExternal, record]
  | true =>
      by_cases success : (site.outcome world.clock).code = 0 <;>
        simp [report, guardedBy, orIf, follow, external, simple, success, World.afterExternal,
          record, Script.pass, status, Flow.status]

private theorem meets_report {command : Script} {errexit : Bool} {machine : Machine}
    {post : Flow → Machine → Prop}
    (run : Meets total command errexit machine fun flow after =>
      post flow (record (.ran machine.locals.cwd false flow.status) after)) :
    Meets total (report false command) errexit machine post := by
  refine Meets.map (fun flow after => (flow, record (.ran machine.locals.cwd false flow.status) after)) ?_ run
  simp only [report, guardedBy, Bool.false_eq_true, ↓reduceIte]
  cases command errexit machine <;> rfl

theorem steps_runs {fuel : Nat} {errexit : Bool} (entered : Entered book dir env)
    (below : ∀ item ∈ book.depend dir, MeetsRecipe total book (site.itemDir item) fuel)
    (steps : List Step) (world : World) :
    Meets total (runCommands site (call site (fuel + 1)) (buildBody steps)) errexit ⟨⟨dir, env⟩, world⟩
      fun flow after => after.locals = ⟨dir, env⟩ ∧
        Run book (.steps errexit dir steps) world flow after.world := by
  induction steps generalizing world with
  | nil => exact .of_eq (touchExport_eq entered.standard errexit world) ⟨rfl, .touch⟩
  | cons step rest ih =>
      rw [runCommands_step]
      refine meets_seq ?_
      cases step with
      | external guarded effect =>
          refine .of_eq (external_eq guarded effect errexit world) ?_
          by_cases goes : guarded = false → errexit = true → (site.outcome world.clock).code = 0
          · have done : ∃ code, (if guarded then .done 0
                else settle errexit (site.outcome world.clock).code) = Flow.done code := by
              cases guarded with
              | true => exact ⟨0, rfl⟩
              | false =>
                  cases errexit with
                  | false => exact ⟨_, rfl⟩
                  | true => exact ⟨0, by simp [goes rfl rfl]⟩
            obtain ⟨code, done⟩ := done
            rw [done]
            refine (ih _).mono fun flow after run => ⟨run.1, ?_⟩
            exact .external goes run.2
          · have stops : guarded = false ∧ errexit = true ∧ (site.outcome world.clock).code ≠ 0 := by
              simpa using goes
            obtain ⟨rfl, rfl, failed⟩ := stops
            simp only [Bool.false_eq_true, ↓reduceIte, settle_effective failed]
            exact ⟨rfl, .external_exit failed⟩
      | botbrew_import =>
          refine meets_report ((import_runs entered below).mono ?_)
          rintro flow ⟨_, middle⟩ ⟨rfl, run⟩
          obtain ⟨code, rfl | rfl⟩ := run.import_flow
          · exact (ih _).mono fun flow after rest => ⟨rest.1, .importing run rest.2⟩
          · exact ⟨rfl, .import_exit run⟩

private theorem build_runs {fuel : Nat} {errexit : Bool} {world : World}
    (entered : Entered book dir env)
    (below : ∀ item ∈ book.depend dir, MeetsRecipe total book (site.itemDir item) fuel) :
    Meets total (call site (fuel + 2) "botbrew_do_build" []) errexit ⟨⟨dir, env⟩, world⟩
      fun flow after => ∃ inner middle, flow = called errexit inner ∧
        after.world = middle.afterCall dir "botbrew_do_build" inner ∧
        Run book (.steps errexit dir (book.steps dir))
          (world.record (.called dir "botbrew_do_build")) inner middle := by
  refine runs_call entered.build (runs_logged ?_)
  refine (steps_runs entered below (book.steps dir) _).mono fun flow after run => ?_
  exact ⟨flow, after.world, rfl, rfl, run.2⟩

private theorem isbuilt_eq {fuel : Nat} (standard : env.Standard site) (world : World) :
    call site (fuel + 1) "_botbrew_do_isbuilt" [] false ⟨⟨dir, env⟩, world⟩ =
      some (.done (if (world.tree dir exportMark).isSome then 0 else 1), ⟨⟨dir, env⟩, world⟩) := by
  have defined : env.funs "_botbrew_do_isbuilt" = some .do_isbuilt :=
    standard.funs _ (by decide)
  have mark : env.vars.scalar "G_EXPORT" = "export" := standard.scalar (by decide)
  cases present : world.tree dir ["export", ".d"] <;>
    simp [call, reading, defined, runFun, function, _botbrew_do_isbuilt, ifElse, follow, test_eq,
      mark, present, returnWith, Flow.status, exportMark]

private theorem perform_runs {fuel : Nat} {errexit : Bool} {world : World}
    (entered : Entered book dir env)
    (below : ∀ item ∈ book.depend dir, MeetsRecipe total book (site.itemDir item) fuel)
    (present : site.HasRecipe dir) :
    Meets total (perform (call site (fuel + 2)) "build" []) errexit ⟨⟨dir, env⟩, world⟩
      fun flow after => ∃ code, flow.status = code ∧
        Run book (.recipe errexit dir) world (.done code) after.world := by
  have noTest : env.funs "botbrew_do_isbuilt" = none := entered.hooks _ (by decide) (by decide)
  simp only [perform, actions, List.mem_cons, String.reduceEq, true_or, or_true, ↓reduceIte]
  refine meets_seq (meets_ifElse (meets_simple ?_))
  simp only [noTest, Option.isSome_none, Bool.false_eq_true, ↓reduceIte, settle_ignored, Continues,
    Nat.reduceEqDiff]
  refine meets_ifElse (.of_eq (isbuilt_eq entered.standard world) ?_)
  cases marked : world.tree dir exportMark with
  | some file =>
      have built : (world.tree dir exportMark).isSome := by simp [marked]
      exact meets_exitWith ⟨0, rfl, .built present built⟩
  | none =>
      simp only [Option.isSome_none, Bool.false_eq_true, ↓reduceIte, Continues, one_ne_zero]
      refine meets_pass (meets_seq (meets_ifElse (meets_simple ?_)))
      simp only [String.reduceAppend, entered.build, Option.isSome_some, ↓reduceIte,
        settle_ignored, Continues]
      refine (build_runs entered below).mono ?_
      rintro flow after ⟨inner, middle, rfl, world', run⟩
      have built := Run.build present marked run
      rw [← world'] at built
      obtain ⟨code, shape⟩ := called_cases errexit inner
      rcases shape with shape | shape
      · rw [shape]
        simp only [buildStatus, shape] at built
        exact meets_pass ⟨0, rfl, built⟩
      · rw [shape]
        simp only [buildStatus, shape] at built
        exact ⟨code, rfl, built⟩

private theorem missing_runs {fuel : Nat} {errexit : Bool} {world : World}
    (standard : env.Standard site) (found : site.recipe dir "recipe" = none) :
    Meets total (call site (fuel + 1) "botbrew_recipe" ["build"]) errexit ⟨⟨dir, env⟩, world⟩
      fun flow after => after.locals = ⟨dir, env⟩ ∧ ∃ code, flow = settle errexit code ∧
        Run book (.recipe errexit dir) world (.done code) after.world := by
  refine runs_call (standard.funs _ (by decide)) ?_
  have file : env.vars.scalar "G_RECIPE" = "recipe" := standard.scalar (by decide)
  refine .of_eq (show _ = some (Flow.ret 1, ⟨⟨dir, env⟩, world⟩) from ?_)
    ⟨rfl, 1, rfl, .missing found⟩
  simp [runFun, botbrew_recipe, reading, file, found, returnWith]

theorem recipe_runs {fuel : Nat}
    (below : ∀ item ∈ book.depend dir, MeetsRecipe total book (site.itemDir item) fuel) :
    MeetsRecipe total book dir (fuel + 3) := by
  intro errexit env world standard
  cases found : site.recipe dir "recipe" with
  | none => exact missing_runs standard found
  | some recipe =>
      refine runs_call (standard.funs _ (by decide)) ?_
      have file : env.vars.scalar "G_RECIPE" = "recipe" := standard.scalar (by decide)
      have acting : (env.set "PACKAGE_ACTION" ["build"]).Standard site :=
        standard.set (by decide) ["build"]
      have entered := (entered_source book acting found).listDepends
      have body : runFun site (call site (fuel + 2)) "botbrew_recipe" ["build"] .botbrew_recipe
            errexit ⟨⟨dir, env⟩, world⟩ =
          withLocals (setVar "PACKAGE_ACTION" ["build"])
            (subshell (seq (setLocals (enter recipe)) (perform (call site (fuel + 2)) "build" [])))
            errexit ⟨⟨dir, env⟩, world⟩ := by
        simp [runFun, botbrew_recipe, reading, file, found]
      refine Meets.congr ?_ body
      refine meets_withLocals (meets_subshell (meets_seq (meets_setLocals ?_)))
      refine (perform_runs entered below (by simp [Site.HasRecipe, found])).mono ?_
      rintro flow after ⟨code, status, run⟩
      refine ⟨rfl, code, ?_, run⟩
      rw [status]
      simp only [called, settle]
      by_cases leaves : (errexit && code != 0) = true <;> simp [leaves, Flow.status]

private theorem items_fuel {items : List String}
    (each : ∀ item ∈ items, ∃ enough, ∀ fuel ≥ enough, RunsRecipe book (site.itemDir item) fuel) :
    ∃ enough, ∀ fuel ≥ enough, ∀ item ∈ items, RunsRecipe book (site.itemDir item) fuel := by
  induction items with
  | nil => exact ⟨0, by simp⟩
  | cons item rest ih =>
      obtain ⟨first, firstRuns⟩ := each item (by simp)
      obtain ⟨others, othersRun⟩ := ih fun other member => each other (by simp [member])
      refine ⟨max first others, fun fuel bound other member => ?_⟩
      rcases List.mem_cons.mp member with rfl | member
      · exact firstRuns fuel (by omega)
      · exact othersRun fuel (by omega) other member

/-- Every build of a finite acyclic cookbook of plain recipes ends, whatever
its commands come to. -/
theorem recipe_terminates (acyclic : book.FiniteAcyclic) (dir : Dir) :
    ∃ enough, ∀ fuel ≥ enough, RunsRecipe book dir fuel := by
  induction dir using acyclic.wellFounded.induction with
  | _ dir ih =>
      by_cases present : site.HasRecipe dir
      · have each : ∀ item ∈ book.depend dir, ∃ enough, ∀ fuel ≥ enough,
            RunsRecipe book (site.itemDir item) fuel :=
          fun item member => ih (site.itemDir item) ⟨present, item, member, rfl⟩
        obtain ⟨enough, below⟩ := items_fuel each
        refine ⟨enough + 3, fun fuel bound => ?_⟩
        obtain ⟨extra, rfl⟩ : ∃ extra, fuel = extra + 3 := ⟨fuel - 3, by omega⟩
        refine runsRecipe_iff.mpr (recipe_runs fun item member => runsRecipe_iff.mp ?_)
        exact below extra (by omega) item member
      · refine ⟨1, fun fuel bound errexit env world standard => ?_⟩
        obtain ⟨extra, rfl⟩ : ∃ extra, fuel = extra + 1 := ⟨fuel - 1, by omega⟩
        have found : site.recipe dir "recipe" = none := by
          simpa [Site.HasRecipe] using present
        exact runs_iff_meets.mpr (missing_runs standard found)

theorem botbrew_build_runs (acyclic : book.FiniteAcyclic) (dir : Dir) (world : World) :
    ∃ enough, ∀ fuel ≥ enough, ∃ code after,
      botbrew site fuel dir ["build"] world = some (code, after) ∧
        Run book (.recipe true dir) world (.done code) after := by
  obtain ⟨enough, runs⟩ := recipe_terminates acyclic dir
  refine ⟨enough, fun fuel bound => ?_⟩
  obtain ⟨flow, after, ran, _, code, rfl, run⟩ :=
    runs fuel bound true site.env world site.env_standard
  exact ⟨code, after.world, by simp [botbrew, ran], run⟩

/-- In every cookbook, with any fuel, a result of `botbrew_recipe build` is a run. -/
theorem recipe_meets (book : PlainBook site) (dir : Dir) (fuel : Nat) :
    MeetsRecipe false book dir fuel := by
  have deep : MeetsRecipe false book dir (3 * fuel) := by
    induction fuel generalizing dir with
    | zero =>
        intro errexit env world _
        unfold Meets
        rfl
    | succ fuel ih => exact recipe_runs fun item _ => ih (site.itemDir item)
  intro errexit env world standard
  exact (deep errexit env world standard).of_approx (call_approx_of_le site (by omega) _ _)

theorem botbrew_build_run (book : PlainBook site) {fuel : Nat} {dir : Dir} {world after : World}
    {code : Status} (ends : botbrew site fuel dir ["build"] world = some (code, after)) :
    Run book (.recipe true dir) world (.done code) after := by
  obtain ⟨⟨flow, machine⟩, ran, same⟩ := Option.map_eq_some_iff.mp ends
  obtain ⟨rfl, rfl⟩ := Prod.mk.inj same
  obtain ⟨_, status, rfl, run⟩ :=
    (recipe_meets book dir fuel true site.env world site.env_standard).post_of_eq ran
  rw [settle_status]
  exact run

end BotBrew.Cookbook
