import BotBrew.Cookbook.ErrexitProperties
import BotBrew.Cookbook.Isolation
import BotBrew.Cookbook.PlainProperties

/-! A nested build and a direct one, side by side. -/

set_option autoImplicit false

namespace BotBrew.Cookbook

open Shell Shell.Script

variable {site : Site} {scope : Scope} {recipe : Recipe} {dir : Dir} {env env' : Env}

/-! Sourcing a recipe -/

theorem source_funs (recipe : Recipe) (dir : Dir) (env : Env) (name : String) :
    (recipe.source dir env).funs name = (recipe.own name).or (env.funs name) := by
  induction recipe using List.reverseRecOn with
  | nil => rfl
  | append_singleton statements statement ih =>
      simp only [Recipe.source, Recipe.own, List.foldl_append, List.foldl_cons, List.foldl_nil] at ih ⊢
      cases statement with
      | assign other value => simpa only [Statement.source, set_funs] using ih
      | define other body =>
          by_cases here : other = name
          · simp [Statement.source, Env.define, here]
          · have different : name ≠ other := fun same => here same.symm
            simpa [Statement.source, Env.define, here, different] using ih

theorem enter_funs (recipe : Recipe) (locals : Locals) (name : String) :
    (enter recipe locals).env.funs name =
      (recipe.own name).or (if name ∈ hooks then none else locals.env.funs name) := by
  rw [enter, listDepends_funs, source_funs, reset_funs]

theorem eqOn_scalar {vars vars' : Vars} {names : Set String} (same : Set.EqOn vars vars' names) {name : String}
    (read : name ∈ names) : vars.scalar name = vars'.scalar name := by
  unfold Vars.scalar
  rw [same read]

theorem eqOn_update {vars vars' : Vars} {names : Set String} (same : Set.EqOn vars vars' names) (name : String)
    (value : Value) :
    Set.EqOn (Function.update vars name value) (Function.update vars' name value) (insert name names) := by
  intro other member
  by_cases here : other = name
  · simp [here]
  · simpa [here] using same (member.resolve_left here)

theorem foldl_set_eqOn {names : Set String} (rows : List (String × Value))
    (same : Set.EqOn env.vars env'.vars names) :
    Set.EqOn (rows.foldl (fun env row => env.set row.1 row.2) env).vars
      (rows.foldl (fun env row => env.set row.1 row.2) env').vars (names ∪ {name | name ∈ rows.map Prod.fst}) := by
  induction rows generalizing env env' names with
  | nil => simpa using same
  | cons row rest ih =>
      refine (ih (eqOn_update same row.1 row.2)).mono fun name member => ?_
      simp only [List.map_cons, List.mem_cons, Set.mem_union, Set.mem_insert_iff, Set.mem_ofPred_eq] at member ⊢
      tauto

theorem source_concat (before : Recipe) (statement : Statement) (dir : Dir) (env : Env) :
    Recipe.source (before ++ [statement]) dir env = statement.source dir (before.source dir env) := by
  simp only [Recipe.source, List.foldl_append, List.foldl_cons, List.foldl_nil]

/-- The induction is on what is still to be sourced. -/
theorem source_eqOn (closed : recipe.Closed scope dir env) {before later : Recipe} (split : recipe = before ++ later)
    (same : Set.EqOn (before.source dir env).vars (before.source dir env').vars (scope.within before).vars) :
    Set.EqOn (recipe.source dir env).vars (recipe.source dir env').vars (scope.within recipe).vars := by
  induction later generalizing before with
  | nil =>
      rw [split, List.append_nil]
      exact same
  | cons statement later ih =>
      have next : recipe = (before ++ [statement]) ++ later := by simp [split]
      refine ih next ?_
      rw [source_concat, source_concat]
      cases statement with
      | assign name value =>
          have agreed : value (before.source dir env).vars dir = value (before.source dir env').vars dir :=
            closed before name value later split _ same
          simp only [Statement.source, agreed]
          refine (eqOn_update same name _).mono fun other member => ?_
          simp only [Scope.within, Recipe.assigned, List.filterMap_append, List.mem_append, List.filterMap_cons,
            List.filterMap_nil, List.mem_singleton, Set.mem_union, Set.mem_ofPred_eq, Set.mem_insert_iff] at member ⊢
          tauto
      | define name body => simpa [Statement.source, Env.define, Scope.within, Recipe.assigned] using same

/-! Shells that are alike -/

/-- The same directory, variables and functions, as far as the scope goes -/
structure Alike (scope : Scope) (locals locals' : Locals) : Prop where
  cwd : locals'.cwd = locals.cwd
  vars : Set.EqOn locals.env.vars locals'.env.vars scope.vars
  funs : Set.EqOn locals.env.funs locals'.env.funs scope.funs

variable {locals locals' left left' : Locals} {world final : World} {fuel : Nat}

theorem Alike.scalar (alike : Alike scope locals locals') {name : String} (read : name ∈ scope.vars) :
    locals.env.vars.scalar name = locals'.env.vars.scalar name :=
  eqOn_scalar alike.vars read

theorem Alike.setVar (alike : Alike scope locals locals') (name : String) (value : Value) :
    Alike (scope.also [name]) (setVar name value locals) (setVar name value locals') where
  cwd := alike.cwd
  vars := (eqOn_update alike.vars name value).mono fun other member =>
    member.elim .inr fun same => .inl (by simpa using same)
  funs := alike.funs

theorem Alike.narrow {wider : Scope} (alike : Alike wider locals locals') (vars : scope.vars ⊆ wider.vars)
    (funs : scope.funs ⊆ wider.funs) : Alike scope locals locals' :=
  ⟨alike.cwd, alike.vars.mono vars, alike.funs.mono funs⟩

theorem eqOn_reset (same : Set.EqOn env.vars env'.vars scope.vars)
    (prefixes : {"G_IMPORT_PREFIX", "G_EXPORT_PREFIX"} ⊆ scope.vars) (dir : Dir) (value : Value) :
    Set.EqOn (reset dir (env.set "PACKAGE_ACTION" value)).vars (reset dir (env'.set "PACKAGE_ACTION" value)).vars
      (scope.within []).vars := by
  have set := eqOn_update same "PACKAGE_ACTION" value
  have imports : (env.set "PACKAGE_ACTION" value).vars.scalar "G_IMPORT_PREFIX" =
      (env'.set "PACKAGE_ACTION" value).vars.scalar "G_IMPORT_PREFIX" :=
    eqOn_scalar set (.inr (prefixes (by simp)))
  have exports : (env.set "PACKAGE_ACTION" value).vars.scalar "G_EXPORT_PREFIX" =
      (env'.set "PACKAGE_ACTION" value).vars.scalar "G_EXPORT_PREFIX" :=
    eqOn_scalar set (.inr (prefixes (by simp)))
  unfold reset resetVars
  rw [foldl_unset_vars, foldl_unset_vars, imports, exports]
  refine (foldl_set_eqOn _ set).mono fun name member => ?_
  simp only [Scope.within, Recipe.assigned, resetNames, List.filterMap_nil, List.not_mem_nil, Set.ofPred_false,
    Set.union_empty, Set.mem_union, Set.mem_ofPred_eq, List.mem_cons, or_false] at member
  simp only [List.map_cons, List.map_nil, Set.mem_union, Set.mem_insert_iff, Set.mem_ofPred_eq, List.mem_cons,
    List.not_mem_nil, or_false]
  tauto

theorem eqOn_listDepends (same : Set.EqOn env.vars env'.vars scope.vars) (read : "PACKAGE_DEPEND" ∈ scope.vars) :
    Set.EqOn (listDepends env).vars (listDepends env').vars scope.vars := by
  unfold listDepends
  rw [same read]
  exact (foldl_set_eqOn _ same).mono Set.subset_union_left

theorem Alike.recipeLocals (alike : Alike scope locals locals') (args : List String)
    (prefixes : {"G_IMPORT_PREFIX", "G_EXPORT_PREFIX"} ⊆ scope.vars)
    (closed : recipe.Closed scope locals.cwd
      (reset locals.cwd (Cookbook.setVar "PACKAGE_ACTION" [args.headD ""] locals).env)) :
    Alike (scope.within recipe) (recipeLocals recipe args locals) (recipeLocals recipe args locals') := by
  obtain ⟨cwd, env⟩ := locals
  obtain ⟨cwd', env'⟩ := locals'
  obtain rfl : cwd' = cwd := alike.cwd
  constructor
  · rfl
  · exact eqOn_listDepends (source_eqOn closed (List.nil_append recipe).symm (eqOn_reset alike.vars prefixes cwd' _))
      (.inl (.inr (by decide)))
  · intro name member
    unfold Cookbook.recipeLocals
    rw [enter_funs, enter_funs]
    rcases member with (known | hook) | own
    · have agreed : env.funs name = env'.funs name := alike.funs known
      simp only [Cookbook.setVar, set_funs, agreed]
    · have unset : name ∈ hooks := hook
      simp only [unset, ↓reduceIte]
    · rw [Option.or_of_isSome own, Option.or_of_isSome own]

/-! Simple commands -/

theorem external_sameEnd {effect : Vars → Outcome → Tree → Tree} (alike : Alike scope locals locals')
    (unseen : scope.Fixes locals.env.vars fun vars =>
      effect vars (site.outcome world.clock) (world.tree locals.cwd)) :
    SameEnd (Alike scope) (external site effect false ⟨locals, world⟩)
      (external site effect false ⟨locals', world⟩) := by
  refine .inr ⟨_, locals, locals', _, rfl, ?_, alike⟩
  have agreed := unseen _ alike.vars
  simp only [external, simple, alike.cwd, World.update, World.tick_tree, agreed]

theorem touchExport_sameEnd (alike : Alike scope locals locals') (read : "G_EXPORT" ∈ scope.vars) :
    SameEnd (Alike scope) (touchExport site false ⟨locals, world⟩) (touchExport site false ⟨locals', world⟩) := by
  refine .inr ⟨_, locals, locals', _, rfl, ?_, alike⟩
  simp only [touchExport, reading, simple, alike.cwd, alike.scalar read]

theorem copyExport_sameEnd (alike : Alike scope locals locals')
    (reads : {"G_ROOT", "G_COOKBOOK", "G_EXPORT"} ⊆ scope.vars) (dst item : String) :
    SameEnd (Alike scope) (copyExport site dst item false ⟨locals, world⟩)
      (copyExport site dst item false ⟨locals', world⟩) := by
  refine .inr ⟨_, locals, locals', _, rfl, ?_, alike⟩
  simp only [copyExport, reading, simple, alike.cwd, Vars.itemDir, alike.scalar (reads (.inl rfl)),
    alike.scalar (reads (.inr (.inl rfl))), alike.scalar (reads (.inr (.inr rfl)))]

theorem logged_sameEnd {name : String} {body body' : Script} (alike : Alike scope locals locals')
    (bodies : SameEnd (Alike scope) (body false ⟨locals, world.record (.called locals.cwd name)⟩)
      (body' false ⟨locals', world.record (.called locals.cwd name)⟩)) :
    SameEnd (Alike scope) (logged name body false ⟨locals, world⟩) (logged name body' false ⟨locals', world⟩) := by
  have here := alike.cwd
  unfold logged record
  simp only [here]
  rcases bodies with ⟨none, none'⟩ | ⟨flow, left, left', final, ran, ran', still⟩
  · exact .inl ⟨by simp only [none], by simp only [none']⟩
  · refine .inr ?_
    simp only [ran, ran']
    cases flow with
    | exit code => exact ⟨_, left, left', final, rfl, rfl, still⟩
    | done code => exact ⟨_, left, left', _, rfl, rfl, still⟩
    | ret code => exact ⟨_, left, left', _, rfl, rfl, still⟩

/-- The command of `report`, before `|| true` -/
def noted (guarded : Bool) (command : Script) : Script := fun errexit machine =>
  match command errexit machine with
  | none => none
  | some (flow, after) => some (flow, record (.ran machine.locals.cwd guarded flow.status) after)

theorem report_sameEnd {command command' : Script} (guarded : Bool) (alike : Alike scope locals locals')
    (commands : SameEnd (Alike scope) (command false ⟨locals, world⟩) (command' false ⟨locals', world⟩)) :
    SameEnd (Alike scope) (report guarded command false ⟨locals, world⟩)
      (report guarded command' false ⟨locals', world⟩) := by
  have reported : SameEnd (Alike scope) (noted guarded command false ⟨locals, world⟩)
      (noted guarded command' false ⟨locals', world⟩) := by
    rcases commands with ⟨none, none'⟩ | ⟨flow, left, left', final, ran, ran', still⟩
    · exact .inl ⟨by simp only [noted, none], by simp only [noted, none']⟩
    · refine .inr ⟨flow, left, left', final.record (.ran locals.cwd guarded flow.status), ?_, ?_, still⟩
      · simp only [noted, ran, record]
      · simp only [noted, ran', record, alike.cwd]
  cases guarded with
  | false => exact reported
  | true =>
      show SameEnd _ (orIf (noted true command) pass false _) (orIf (noted true command') pass false _)
      exact sameEnd_orIf reported fun left left' final related => .of_done related

theorem remove_sameEnd (alike : Alike scope locals locals') {names : List String}
    (reads : ∀ name ∈ names, name ∈ scope.vars) :
    SameEnd (Alike scope) (remove site names false ⟨locals, world⟩) (remove site names false ⟨locals', world⟩) := by
  refine external_sameEnd alike fun vars' same => ?_
  have tops : names.map locals.env.vars.scalar = names.map (Vars.scalar vars') :=
    List.map_congr_left fun name member => eqOn_scalar same (reads name member)
  simp only [tops]

theorem ifElse_test (condition : Vars → Tree → Bool) (yes no : Script) (machine : Machine) :
    ifElse (test condition) yes no false machine =
      if condition machine.locals.env.vars (machine.world.tree machine.locals.cwd) then yes false machine
      else no false machine := by
  simp only [ifElse, follow, test, simple, Bool.false_and, settle_ignored]
  split <;> simp

theorem ifElse_typeOf (name : String) (yes no : Script) (machine : Machine) :
    ifElse (typeOf name) yes no false machine =
      if (machine.locals.env.funs name).isSome then yes false machine else no false machine := by
  simp only [ifElse, follow, typeOf, simple, Bool.false_and, settle_ignored]
  split <;> simp

theorem seq_setLocals (update : Locals → Locals) (next : Script) (machine : Machine) :
    seq (setLocals update) next false machine = next false ⟨update machine.locals, machine.world⟩ := rfl

theorem seq_cd (target : Vars → Dir) (next : Script) (machine : Machine) :
    seq (cd site target) next false machine =
      if site.isDir (target machine.locals.env.vars) then
        next false ⟨{ machine.locals with cwd := target machine.locals.env.vars }, machine.world⟩
      else next false machine := by
  simp only [seq, follow, cd, simple, Bool.false_and, settle_ignored]
  split <;> rfl

theorem andIf_cd (target : Vars → Dir) (next : Script) (machine : Machine) :
    andIf (cd site target) next false machine =
      if site.isDir (target machine.locals.env.vars) then
        next false ⟨{ machine.locals with cwd := target machine.locals.env.vars }, machine.world⟩
      else some (.done 1, machine) := by
  simp only [andIf, follow, cd, simple, Bool.false_and, settle_ignored]
  split <;> rfl

/-! The functions of `botbrew` -/

theorem do_isbuilt_sameEnd (alike : Alike scope locals locals') (read : "G_EXPORT" ∈ scope.vars) :
    SameEnd (Alike scope) (_botbrew_do_isbuilt false ⟨locals, world⟩)
      (_botbrew_do_isbuilt false ⟨locals', world⟩) := by
  unfold _botbrew_do_isbuilt
  rw [ifElse_test, ifElse_test]
  simp only [alike.cwd, ← alike.scalar read]
  split
  · exact .inr ⟨.ret 0, locals, locals', world, rfl, rfl, alike⟩
  · exact .inr ⟨.ret 1, locals, locals', world, rfl, rfl, alike⟩

theorem do_clean_sameEnd (alike : Alike scope locals locals') (read : "G_OBJECT" ∈ scope.vars)
    (unseen : (world.tree locals.cwd [locals.env.vars.scalar "G_OBJECT", "Makefile"]).isSome →
      scope.Fixes locals.env.vars fun vars =>
        site.make_clean vars (site.outcome world.clock) (world.tree locals.cwd)) :
    SameEnd (Alike scope) (_botbrew_do_clean site false ⟨locals, world⟩)
      (_botbrew_do_clean site false ⟨locals', world⟩) := by
  unfold _botbrew_do_clean
  rw [ifElse_test, ifElse_test]
  simp only [alike.cwd, ← alike.scalar read]
  split
  · next makefile =>
      refine external_sameEnd alike fun vars' same => ?_
      have object := eqOn_scalar same read
      have cleaned := unseen makefile vars' same
      simp only [object, cleaned]
  · exact .of_done alike

theorem packages_sameEnd (cwd : Dir) (items : List String) :
    SameEnd (fun _ _ => True) (forEach items (buildyaml site cwd) false ⟨locals, world⟩)
      (forEach items (buildyaml site cwd) false ⟨locals', world⟩) := by
  induction items generalizing world with
  | nil => exact .of_done trivial
  | cons item rest ih => exact ih

theorem do_package_sameEnd (alike : Alike scope locals locals') (reads : {"G_ROOT", "G_REPO"} ⊆ scope.vars) :
    SameEnd (Alike scope) (_botbrew_do_package site false ⟨locals, world⟩)
      (_botbrew_do_package site false ⟨locals', world⟩) := by
  have set := alike.setVar "CWD" ["/".intercalate locals.cwd]
  have target : ∀ name ∈ ["G_ROOT", "G_REPO"],
      (setVar "CWD" ["/".intercalate locals.cwd] locals').env.vars.scalar name =
        (setVar "CWD" ["/".intercalate locals.cwd] locals).env.vars.scalar name := fun name member =>
    (set.scalar (.inl (reads (by simpa using member)))).symm
  unfold _botbrew_do_package reading
  simp only [alike.cwd]
  refine sameEnd_subshell ?_ alike
  rw [seq_setLocals, seq_setLocals, seq_cd, seq_cd]
  simp only [target "G_ROOT" (by simp), target "G_REPO" (by simp)]
  split
  · exact packages_sameEnd _ _
  · exact packages_sameEnd _ _

/-- The subshell in which `botbrew_import` builds an item -/
theorem import_subshell_eq {item : String} {locals : Locals} (found : site.isDir (locals.env.vars.itemDir item)) :
    (subshell (andIf (cd site fun vars => vars.itemDir item)
        (Cookbook.call site fuel "botbrew_recipe" ["build"])) false ⟨locals, world⟩).map
      (fun result => (result.1.status, result.2.world)) =
      importBuild site fuel (locals.env.vars.itemDir item) locals.env world := by
  unfold subshell
  rw [andIf_cd, if_pos found]
  unfold importBuild
  cases Cookbook.call site fuel "botbrew_recipe" ["build"] false _ with
  | none => rfl
  | some ending => simp [Flow.status]

theorem import_subshell_built {item : String} {locals left : Locals}
    (ran : subshell (andIf (cd site fun vars => vars.itemDir item)
      (Cookbook.call site fuel "botbrew_recipe" ["build"])) false ⟨locals, world⟩ = some (.done 0, ⟨left, final⟩)) :
    site.isDir (locals.env.vars.itemDir item) ∧
      importBuild site fuel (locals.env.vars.itemDir item) locals.env world = some (0, final) := by
  by_cases found : site.isDir (locals.env.vars.itemDir item) = true
  · exact ⟨found, by rw [← import_subshell_eq found, ran]; rfl⟩
  · unfold subshell at ran
    rw [andIf_cd, if_neg found] at ran
    simp [Flow.status] at ran

/-! Stages -/

theorem Stage.Confined.here {stage : Stage} (confined : stage.Confined site) : stage.Closed site := confined stage .refl

theorem Stage.Confined.later {stage next : Stage} (confined : stage.Confined site) (starts : Starts site stage next) :
    next.Confined site :=
  fun later reached => confined later (.head starts reached)

def CallsAlike (site : Site) (fuel : Nat) : Prop :=
  ∀ (scope : Scope) (name : String) (args : List String) (locals locals' : Locals) (world : World),
    Stage.Confined site ⟨fuel, scope, .call name args, locals, world⟩ → Alike scope locals locals' →
      SameEnd (Alike scope) (call site fuel name args false ⟨locals, world⟩)
        (call site fuel name args false ⟨locals', world⟩)

theorem runCommand_sameEnd (calls : CallsAlike site fuel) {command : Command} {rest : List Command}
    (confined : Stage.Confined site ⟨fuel, scope, .run (command :: rest), locals, world⟩)
    (alike : Alike scope locals locals') :
    SameEnd (Alike scope) (runCommand site (call site fuel) command false ⟨locals, world⟩)
      (runCommand site (call site fuel) command false ⟨locals', world⟩) := by
  cases command with
  | external guarded effect => exact report_sameEnd guarded alike (external_sameEnd alike confined.here)
  | touchMark => exact report_sameEnd false alike (touchExport_sameEnd alike confined.here)
  | call guarded name args =>
      exact report_sameEnd guarded alike (calls scope name args _ _ _ (confined.later .command) alike)

theorem runCommands_sameEnd (calls : CallsAlike site fuel) {commands : List Command}
    (confined : Stage.Confined site ⟨fuel, scope, .run commands, locals, world⟩)
    (alike : Alike scope locals locals') :
    SameEnd (Alike scope) (runCommands site (call site fuel) commands false ⟨locals, world⟩)
      (runCommands site (call site fuel) commands false ⟨locals', world⟩) := by
  induction commands generalizing locals locals' world with
  | nil => exact .of_done alike
  | cons command rest ih =>
      have first := runCommand_sameEnd calls confined alike
      cases rest with
      | nil => exact first
      | cons next rest =>
          refine sameEnd_follow first (fun _ _ related => related) fun code left left' final ran related => ?_
          exact ih (confined.later (.rest ran)) related

theorem importItem_sameEnd (calls : CallsAlike site fuel) {dst item : String} {rest : List String}
    (confined : Stage.Confined site ⟨fuel, scope, .items dst (item :: rest), locals, world⟩)
    (alike : Alike scope locals locals') :
    SameEnd (Alike (scope.also ["item"])) (importItem site (call site fuel) dst item false ⟨locals, world⟩)
      (importItem site (call site fuel) dst item false ⟨locals', world⟩) := by
  have set := alike.setVar "item" [item]
  show SameEnd _
    (ifElse (test fun _ tree => (tree [dst, ".import." ++ item]).isSome) _ _ false ⟨setVar "item" [item] locals, world⟩)
    (ifElse (test fun _ tree => (tree [dst, ".import." ++ item]).isSome) _ _ false ⟨setVar "item" [item] locals', world⟩)
  rw [ifElse_test, ifElse_test]
  simp only [set.cwd]
  split
  · exact .of_done set
  · next unset =>
      have unmarked : world.tree locals.cwd [dst, ".import." ++ item] = none := by simpa [setVar] using unset
      obtain ⟨reads, exports⟩ := confined.here unmarked
      have target : (setVar "item" [item] locals').env.vars.itemDir item =
          (setVar "item" [item] locals).env.vars.itemDir item := by
        simp only [Vars.itemDir, set.scalar (.inl (reads (.inl rfl))), set.scalar (.inl (reads (.inr rfl)))]
      refine sameEnd_orIf (sameEnd_andIf (sameEnd_andIf (sameEnd_subshell ?_ set) ?_) ?_) ?_
      · rw [andIf_cd, andIf_cd]
        simp only [target]
        split
        · next found =>
            refine (calls _ _ _ _ _ _ (confined.later (.nested unmarked found)) ?_).mono fun _ _ _ => trivial
            exact ⟨rfl, set.vars, set.funs⟩
        · exact .of_done trivial
      · intro left left' final ran related
        obtain ⟨found, built⟩ := import_subshell_built ran
        refine copyExport_sameEnd related (fun name member => .inl ?_) dst item
        rcases member with rfl | rfl | rfl
        · exact reads (.inl rfl)
        · exact reads (.inr rfl)
        · exact exports final found built
      · intro left left' final _ related
        exact external_sameEnd related fun _ _ => rfl
      · intro left left' final related
        exact .inr ⟨.ret 1, left, left', final, rfl, rfl, related⟩

theorem items_sameEnd (calls : CallsAlike site fuel) {dst : String} {items : List String}
    (confined : Stage.Confined site ⟨fuel, scope, .items dst items, locals, world⟩)
    (alike : Alike scope locals locals') :
    SameEnd (fun _ _ => True) (forEach items (importItem site (call site fuel) dst) false ⟨locals, world⟩)
      (forEach items (importItem site (call site fuel) dst) false ⟨locals', world⟩) := by
  induction items generalizing scope locals locals' world with
  | nil => exact .of_done trivial
  | cons item rest ih =>
      refine sameEnd_follow (importItem_sameEnd calls confined alike) (fun _ _ _ => trivial) ?_
      intro code left left' final ran related
      exact ih (confined.later (.items ran)) related

theorem botbrew_import_sameEnd (calls : CallsAlike site fuel) {args : List String}
    (reads : args.headD "" = "" → {"G_IMPORT", "PACKAGE_DEPEND"} ⊆ scope.vars)
    (confined : Stage.Confined site ⟨fuel, scope.also ["DST", "DEP"],
      .items (destination args locals.env.vars) (dependencies args locals.env.vars), importLocals args locals,
      world.tick⟩)
    (alike : Alike scope locals locals') :
    SameEnd (Alike scope) (botbrew_import site (call site fuel) args false ⟨locals, world⟩)
      (botbrew_import site (call site fuel) args false ⟨locals', world⟩) := by
  have dst : destination args locals'.env.vars = destination args locals.env.vars := by
    unfold destination
    split
    · next usual => exact (alike.scalar (reads usual (.inl rfl))).symm
    · rfl
  have dep : dependencies args locals'.env.vars = dependencies args locals.env.vars := by
    unfold dependencies
    split
    · next usual => exact (alike.vars (reads usual (.inr rfl))).symm
    · rfl
  have set : Alike (scope.also ["DST", "DEP"]) (importLocals args locals) (importLocals args locals') := by
    unfold importLocals
    rw [dst, dep]
    refine ((alike.setVar _ _).setVar _ _).narrow (fun name member => ?_) fun name member => member
    rcases member with known | set
    · exact .inl (.inl known)
    · rcases List.mem_cons.mp set with dst | dep
      · exact .inl (.inr (List.mem_singleton.mpr dst))
      · exact .inr dep
  show SameEnd _
    (withLocals (fun _ => importLocals args locals) (seq (mkdir site) (forEach (dependencies args locals.env.vars)
      (importItem site (call site fuel) (destination args locals.env.vars)))) false ⟨locals, world⟩)
    (withLocals (fun _ => importLocals args locals') (seq (mkdir site) (forEach (dependencies args locals'.env.vars)
      (importItem site (call site fuel) (destination args locals'.env.vars)))) false ⟨locals', world⟩)
  rw [dst, dep]
  exact sameEnd_withLocals (items_sameEnd calls confined set) alike

theorem dispatch_eq (call : Call) (action : String) (args : List String) (machine : Machine) :
    dispatch call action args false machine = call (chosen action machine.locals.env) args false machine := by
  unfold dispatch chosen
  rw [ifElse_typeOf]
  split <;> rfl

theorem perform_eq {call : Call} {action : String} (listed : action ∈ actions) (args : List String)
    (machine : Machine) :
    perform call action args false machine =
      seq (checkBuilt call action args) (seq (dispatch call action args) pass) false machine := by
  have checked : (if action = "build" then
        ifElse (typeOf "botbrew_do_isbuilt") (ifElse (call "botbrew_do_isbuilt" args) (exitWith 0) pass)
          (ifElse (call "_botbrew_do_isbuilt" args) (exitWith 0) pass)
      else pass) false machine = checkBuilt call action args false machine := by
    unfold checkBuilt
    split
    · rw [ifElse_typeOf]
      show _ = ifElse (call (if (machine.locals.env.funs "botbrew_do_isbuilt").isSome then "botbrew_do_isbuilt"
        else "_botbrew_do_isbuilt") args) (exitWith 0) pass false machine
      split <;> rfl
    · rfl
  unfold perform
  rw [if_pos listed]
  simp only [seq, follow, Bool.false_and, checked]

theorem chosen_eq (alike : Alike scope locals locals') {action : String}
    (hook : "botbrew_do_" ++ action ∈ scope.funs) :
    chosen action locals'.env = chosen action locals.env := by
  unfold chosen
  rw [← alike.funs hook]

theorem hook_mem_within {action : String} (listed : action ∈ "isbuilt" :: actions) :
    "botbrew_do_" ++ action ∈ (scope.within recipe).funs := by
  have hook : ∀ action ∈ "isbuilt" :: actions, "botbrew_do_" ++ action ∈ hooks := by decide
  exact .inl (.inr (hook action listed))

/-- The isbuilt function, and then the one for the action, are those of the first shell. -/
theorem perform_sameEnd (calls : CallsAlike site fuel) {action : String} {args : List String}
    (isbuilt : action = "build" →
      Stage.Confined site ⟨fuel, scope.within recipe, .call (chosen "isbuilt" locals.env) args, locals, world⟩)
    (act : action ∈ actions → ∀ code left final,
      checkBuilt (call site fuel) action args false ⟨locals, world⟩ = some (.done code, ⟨left, final⟩) →
        Stage.Confined site ⟨fuel, scope.within recipe, .call (chosen action left.env) args, left, final⟩)
    (alike : Alike (scope.within recipe) locals locals') :
    SameEnd (Alike (scope.within recipe)) (perform (call site fuel) action args false ⟨locals, world⟩)
      (perform (call site fuel) action args false ⟨locals', world⟩) := by
  by_cases listed : action ∈ actions
  · have checked : SameEnd (Alike (scope.within recipe))
        (checkBuilt (call site fuel) action args false ⟨locals, world⟩)
        (checkBuilt (call site fuel) action args false ⟨locals', world⟩) := by
      unfold checkBuilt
      split
      · next build =>
          have tested := calls _ _ _ _ _ _ (isbuilt build) alike
          unfold reading
          simp only [chosen_eq alike (hook_mem_within List.mem_cons_self)]
          refine sameEnd_follow tested (fun _ _ related => related) fun code left left' final _ related => ?_
          split
          · exact .inr ⟨.exit 0, left, left', final, rfl, rfl, related⟩
          · exact .of_done related
      · exact .of_done alike
    rw [perform_eq listed, perform_eq listed]
    refine sameEnd_follow checked (fun _ _ related => related) fun code left left' final ran related => ?_
    have dispatched : SameEnd (Alike (scope.within recipe))
        (dispatch (call site fuel) action args false ⟨left, final⟩)
        (dispatch (call site fuel) action args false ⟨left', final⟩) := by
      have next := calls _ _ _ _ _ _ (act listed code left final ran) related
      rw [dispatch_eq, dispatch_eq, chosen_eq related (hook_mem_within (List.mem_cons_of_mem _ listed))]
      exact next
    exact sameEnd_follow dispatched (fun _ _ related => related) fun _ _ _ _ _ related => .of_done related
  · simp only [perform, listed, ↓reduceIte]
    exact .of_done alike

theorem botbrew_recipe_sameEnd (calls : CallsAlike site fuel) {name : String} {args : List String}
    (found : locals.env.funs name = some .botbrew_recipe)
    (confined : Stage.Confined site ⟨fuel + 1, scope, .call name args, locals, world⟩)
    (alike : Alike scope locals locals') :
    SameEnd (Alike scope) (botbrew_recipe site (call site fuel) args false ⟨locals, world⟩)
      (botbrew_recipe site (call site fuel) args false ⟨locals', world⟩) := by
  obtain ⟨read, reads⟩ := confined.here.2 .botbrew_recipe found
  unfold botbrew_recipe reading
  simp only [alike.cwd, ← alike.scalar read]
  cases sourced : site.recipe locals.cwd (locals.env.vars.scalar "G_RECIPE") with
  | none => exact .inr ⟨.ret 1, locals, locals', world, rfl, rfl, alike⟩
  | some recipe =>
      obtain ⟨prefixes, closed⟩ := reads recipe sourced
      have performed := perform_sameEnd calls (fun build => confined.later (.isbuilt found sourced build))
        (fun listed code left final ran => confined.later (.action found sourced listed ran))
        (alike.recipeLocals args prefixes closed)
      exact sameEnd_withLocals (sameEnd_subshell (performed.mono fun _ _ _ => trivial) trivial) alike

theorem runFun_sameEnd (calls : CallsAlike site fuel) {name : String} {args : List String} {body : Fun}
    (found : locals.env.funs name = some body)
    (confined : Stage.Confined site ⟨fuel + 1, scope, .call name args, locals, world⟩)
    (alike : Alike scope locals locals') :
    SameEnd (Alike scope) (runFun site (call site fuel) name args body false ⟨locals, world⟩)
      (runFun site (call site fuel) name args body false ⟨locals', world⟩) := by
  have closed := confined.here.2 body found
  cases body with
  | body commands => exact logged_sameEnd alike (runCommands_sameEnd calls (confined.later (.body found)) alike)
  | botbrew_import =>
      exact logged_sameEnd alike (botbrew_import_sameEnd calls closed (confined.later (.imports found)) alike)
  | botbrew_recipe => exact botbrew_recipe_sameEnd calls found confined alike
  | do_query => exact .of_done alike
  | do_build => exact .of_done alike
  | do_package => exact do_package_sameEnd alike closed
  | do_clean => exact do_clean_sameEnd alike closed.1 closed.2
  | do_distclean => exact remove_sameEnd alike fun name member => closed (by simpa using member)
  | do_clobber => exact remove_sameEnd alike fun name member => closed (by simpa using member)
  | do_isbuilt => exact do_isbuilt_sameEnd alike closed

/-- The induction is on the depth of calls. -/
theorem call_alike (site : Site) (fuel : Nat) : CallsAlike site fuel := by
  induction fuel with
  | zero =>
      intro scope name args locals locals' world confined alike
      exact .inl ⟨rfl, rfl⟩
  | succ fuel ih =>
      intro scope name args locals locals' world confined alike
      have known := alike.funs confined.here.1
      simp only [call, reading, ← known]
      cases found : locals.env.funs name with
      | none => exact .inr ⟨_, locals, locals', world, rfl, rfl, alike⟩
      | some body => exact sameEnd_function (runFun_sameEnd ih found confined alike)

/-! The nested build and the direct one -/

theorem selected_entered {action : String} (building : action ∈ ["isbuilt", "build"]) (recipe : Recipe) (dir : Dir)
    (env : Env) :
    selected action (recipe.entered dir env) = (recipe.own ("botbrew_do_" ++ action)).or
      ((recipe.own ("_botbrew_do_" ++ action)).or (env.funs ("_botbrew_do_" ++ action))) := by
  have hook : ∀ action ∈ ["isbuilt", "build"], "botbrew_do_" ++ action ∈ hooks ∧ "_botbrew_do_" ++ action ∉ hooks := by
    decide
  unfold selected Recipe.entered
  rw [enter_funs, enter_funs, if_pos (hook action building).1, if_neg (hook action building).2, Option.or_none]
  rfl

theorem or_eq_iff {own default : Option Fun} {found found' : Option Fun} :
    own.or (default.or found) = own.or (default.or found') ↔ own.isSome ∨ default.isSome ∨ found = found' := by
  cases own with
  | some body => simp
  | none =>
      cases default with
      | some body => simp
      | none => simp

theorem importBuild_eq {after : World} (confined : (directBuild site fuel scope dir world).Confined site)
    (unchanged : env.Unchanged site scope) (built : botbrew site fuel dir ["build"] world = some (0, after)) :
    importBuild site fuel dir env world = some (0, after) := by
  obtain ⟨⟨flow, locals, final⟩, ran, ended⟩ := Option.map_eq_some_iff.mp built
  obtain ⟨success, rfl⟩ : flow.status = 0 ∧ final = after := by simpa using ended
  -- A run that succeeds under errexit goes as without it.
  have direct : call site fuel "botbrew_recipe" ["build"] false ⟨⟨dir, site.env⟩, world⟩ =
      some (flow, ⟨locals, final⟩) := by
    rcases call_stopsOrSame site fuel "botbrew_recipe" ["build"] ⟨⟨dir, site.env⟩, world⟩ with
      ⟨code, left, failed, stopped⟩ | same
    · obtain ⟨rfl, _⟩ : Flow.exit code = flow ∧ left = ⟨locals, final⟩ := by
        simpa using stopped.symm.trans ran
      exact absurd success failed
    · exact same.symm.trans ran
  have alike : Alike scope ⟨dir, site.env⟩ ⟨dir, env⟩ := ⟨rfl, unchanged.vars.symm, unchanged.funs.symm⟩
  rcases call_alike site fuel _ _ _ _ _ _ confined alike with
    ⟨none, _⟩ | ⟨flow', left, left', final', direct', nested, _⟩
  · cases none.symm.trans direct
  · obtain ⟨rfl, rfl, rfl⟩ : flow' = flow ∧ left = locals ∧ final' = final := by
      simpa using direct'.symm.trans direct
    simp only [importBuild, nested, Option.map_some, success]

def importing (recipe : Recipe) : List Link := [⟨appDir, recipe, "import", ["lib"], "lib"⟩]

def libSteps : List Step := [.botbrew_import, .external false makeInstall]

/-- `lib` uses a default that `app` replaces, but not when it is built. -/
def sharedRecipe : Recipe :=
  [.define "botbrew_do_build" (.body (buildBody libSteps)),
    .define "botbrew_do_clobber" (.body [.call false "_botbrew_do_clobber" []])]

def sharingRecipe : Recipe := .define "_botbrew_do_clobber" (.body [.external false makeInstall]) :: appRecipe

def sharingRecipes : Site :=
  { twoRecipes succeeds with
    recipe := fun dir file =>
      if file = "recipe" then
        if dir = libDir then some sharedRecipe else if dir = appDir then some sharingRecipe else none
      else none }

def libVars : List String :=
  ["G_RECIPE", "G_IMPORT_PREFIX", "G_EXPORT_PREFIX", "G_IMPORT", "G_EXPORT"]

def libFuns : List String := ["botbrew_recipe", "botbrew_import", "_botbrew_do_isbuilt"]

def libScope : Scope where
  vars := {name | name ∈ libVars}
  funs := {name | name ∈ libFuns}

def libLocals : Locals := recipeLocals sharedRecipe ["build"] ⟨libDir, sharingRecipes.env⟩

/-- What the direct build of `lib` comes to -/
inductive LibStage : Stage → Prop where
  | recipe {world : World} : LibStage (directBuild sharingRecipes 10 libScope libDir world)
  | isbuilt {world : World} :
      LibStage ⟨9, libScope.within sharedRecipe, .call "_botbrew_do_isbuilt" [], libLocals, world⟩
  | build {world : World} : LibStage ⟨9, libScope.within sharedRecipe, .call "botbrew_do_build" [], libLocals, world⟩
  | run {commands : List Command} {world : World} (part : commands <:+ buildBody libSteps) :
      LibStage ⟨8, libScope.within sharedRecipe, .run commands, libLocals, world⟩
  | imports {world : World} : LibStage ⟨8, libScope.within sharedRecipe, .call "botbrew_import" [], libLocals, world⟩
  | items {dst : String} {locals : Locals} {world : World} :
      LibStage ⟨7, (libScope.within sharedRecipe).also ["DST", "DEP"], .items dst [], locals, world⟩

/-- Each command of the build leaves the shell as it is. -/
theorem libCommand_locals {command : Command} (member : command ∈ buildBody libSteps) (world : World) :
    ∃ code final, runCommand sharingRecipes (call sharingRecipes 8) command false ⟨libLocals, world⟩ =
      some (.done code, ⟨libLocals, final⟩) := by
  have cases : command = .call false "botbrew_import" [] ∨ command = .external false makeInstall ∨
      command = .touchMark := by
    simpa [buildBody, libSteps, Step.command] using member
  rcases cases with rfl | rfl | rfl
  · exact ⟨0, _, rfl⟩
  · exact ⟨0, _, rfl⟩
  · exact ⟨0, _, rfl⟩

theorem checkBuilt_locals {world final : World} {code : Status} {left : Locals}
    (unbuilt : checkBuilt (call sharingRecipes 9) "build" [] false ⟨libLocals, world⟩ =
      some (.done code, ⟨left, final⟩)) : left = libLocals := by
  have tested : ∃ status, function _botbrew_do_isbuilt false ⟨libLocals, world⟩ =
      some (.done status, ⟨libLocals, world⟩) := by
    unfold function _botbrew_do_isbuilt
    rw [ifElse_test]
    generalize Option.isSome _ = built
    cases built <;> exact ⟨_, rfl⟩
  obtain ⟨status, tested⟩ := tested
  have checked : checkBuilt (call sharingRecipes 9) "build" [] false ⟨libLocals, world⟩ =
      ifElse (function _botbrew_do_isbuilt) (exitWith 0) pass false ⟨libLocals, world⟩ := rfl
  rw [checked] at unbuilt
  simp only [ifElse, follow, Bool.false_and, tested] at unbuilt
  split at unbuilt
  · cases unbuilt
  · cases unbuilt
    rfl

theorem LibStage.next {stage later : Stage} (here : LibStage stage) (starts : Starts sharingRecipes stage later) :
    LibStage later := by
  cases here with
  | recipe =>
      cases starts with
      | body found => cases found
      | imports found => cases found
      | isbuilt found sourced build =>
          cases sourced
          exact .isbuilt
      | action found sourced listed unbuilt =>
          cases sourced
          obtain rfl := checkBuilt_locals unbuilt
          exact .build
  | isbuilt =>
      cases starts with
      | body found => cases found
      | imports found => cases found
      | isbuilt found sourced build => cases found
      | action found sourced listed unbuilt => cases found
  | build =>
      cases starts with
      | body found =>
          cases found
          exact .run List.suffix_rfl
      | imports found => cases found
      | isbuilt found sourced build => cases found
      | action found sourced listed unbuilt => cases found
  | run part =>
      cases starts with
      | command =>
          have member := part.subset List.mem_cons_self
          simp only [buildBody, libSteps, List.map_cons, List.map_nil, Step.command, List.cons_append, List.nil_append,
            List.mem_cons, Command.call.injEq, List.not_mem_nil, reduceCtorEq, or_false] at member
          obtain ⟨rfl, rfl, rfl⟩ := member
          exact .imports
      | rest ran =>
          obtain ⟨code, final, same⟩ := libCommand_locals (part.subset List.mem_cons_self) _
          cases same.symm.trans ran
          exact .run ((List.suffix_cons _ _).trans part)
  | imports =>
      cases starts with
      | body found => cases found
      | imports found => exact .items
      | isbuilt found sourced build => cases found
      | action found sourced listed unbuilt => cases found
  | items => cases starts

theorem LibStage.closed {stage : Stage} (here : LibStage stage) : stage.Closed sharingRecipes := by
  have known : ∀ name ∈ libVars, name ∈ (libScope.within sharedRecipe).vars := fun name member => .inl (.inl member)
  cases here with
  | recipe =>
      refine ⟨?_, fun body found => ?_⟩
      · show "botbrew_recipe" ∈ libFuns
        decide
      · cases found
        refine ⟨show "G_RECIPE" ∈ libVars by decide, fun recipe sourced => ⟨?_, ?_⟩⟩
        · rintro name (rfl | rfl)
          · exact show "G_IMPORT_PREFIX" ∈ libVars by decide
          · exact show "G_EXPORT_PREFIX" ∈ libVars by decide
        · cases sourced
          intro before name value later split
          have member : .assign name value ∈ sharedRecipe := by
            rw [split]
            exact List.mem_append_right before List.mem_cons_self
          simp [sharedRecipe] at member
  | isbuilt =>
      refine ⟨.inl (.inl (show "_botbrew_do_isbuilt" ∈ libFuns by decide)), fun body found => ?_⟩
      cases found
      exact known "G_EXPORT" (by decide)
  | build =>
      refine ⟨.inl (.inr (show "botbrew_do_build" ∈ hooks by decide)), fun body found => ?_⟩
      cases found
      trivial
  | run part =>
      rename_i commands world
      cases commands with
      | nil => trivial
      | cons command rest =>
          have member := part.subset List.mem_cons_self
          have cases : command = .call false "botbrew_import" [] ∨ command = .external false makeInstall ∨
              command = .touchMark := by
            simpa [buildBody, libSteps, Step.command] using member
          rcases cases with rfl | rfl | rfl
          · trivial
          · exact fun _ _ => rfl
          · exact known "G_EXPORT" (by decide)
  | imports =>
      refine ⟨.inl (.inl (show "botbrew_import" ∈ libFuns by decide)), fun body found => ?_⟩
      cases found
      rintro usual name (rfl | rfl)
      · exact known "G_IMPORT" (by decide)
      · exact .inl (.inr (show "PACKAGE_DEPEND" ∈ resetNames by decide))
  | items => trivial

theorem libBuild_confined (world : World) :
    (directBuild sharingRecipes 10 libScope libDir world).Confined sharingRecipes := by
  intro later reached
  have stays : LibStage later := by
    induction reached with
    | refl => exact .recipe
    | tail _ starts ih => exact ih.next starts
  exact stays.closed

theorem app_leaves_unchanged :
    (inherited sharingRecipes (importing sharingRecipe)).Unchanged sharingRecipes libScope where
  vars := by
    have kept : ∀ name ∈ libVars, (inherited sharingRecipes (importing sharingRecipe)).vars name =
        sharingRecipes.vars name := by
      decide
    exact kept
  funs name known := by
    have cases : name = "botbrew_recipe" ∨ name = "botbrew_import" ∨ name = "_botbrew_do_isbuilt" := by
      have listed : name ∈ libFuns := known
      simpa [libFuns] using listed
    rcases cases with rfl | rfl | rfl <;> rfl

def prebuiltRecipe : Recipe := [.assign "PACKAGE_NAME" fun _ _ => ["lib"]]

def meddlingRecipe : Recipe :=
  [.assign "PACKAGE_DEPEND" fun _ _ => ["lib"],
    .define "_botbrew_do_build" (.body (buildBody [.botbrew_import]))]

def meddlingRecipes : Site :=
  { twoRecipes succeeds with
    recipe := fun dir file =>
      if file = "recipe" then
        if dir = libDir then some prebuiltRecipe else if dir = appDir then some meddlingRecipe else none
      else none }

def prebuiltLib : World :=
  .start fun dir path => if dir = libDir ∧ path = ["export", "lib"] then some "lib" else none

end BotBrew.Cookbook
