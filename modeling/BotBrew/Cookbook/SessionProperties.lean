import BotBrew.Cookbook.Session

/-! What the actions of a session do to the markers and to the log. -/

set_option autoImplicit false

namespace BotBrew.Cookbook

open Shell Shell.Script

variable {site : Site} {book : PlainBook site} {dir : Dir} {env : Env} {world after : World}

/-! Actions with a default function -/

theorem call_meets {fuel : Nat} {name : String} {args : List String} {body : Fun} {errexit : Bool}
    {post : Flow → Machine → Prop} (defined : env.funs name = some body)
    (run : ∀ fuel, Meets false (runFun site (call site fuel) name args body) errexit ⟨⟨dir, env⟩, world⟩
      fun flow after => post (called errexit flow) after) :
    Meets false (call site fuel name args) errexit ⟨⟨dir, env⟩, world⟩ post := by
  cases fuel with
  | zero =>
      unfold Meets
      rfl
  | succ fuel => exact runs_call defined (run fuel)

theorem perform_meets {fuel : Nat} {action : String} {body : Fun} {errexit : Bool} {post : World → Prop}
    (listed : action ∈ actions) (other : action ≠ "build")
    (unset : env.funs ("botbrew_do_" ++ action) = none)
    (defined : env.funs ("_botbrew_do_" ++ action) = some body)
    (run : ∀ call, Meets false (runFun site call ("_botbrew_do_" ++ action) [] body) errexit
      ⟨⟨dir, env⟩, world⟩ fun _ after => post after.world) :
    Meets false (perform (call site fuel) action []) errexit ⟨⟨dir, env⟩, world⟩
      fun _ after => post after.world := by
  unfold perform
  rw [if_pos listed, if_neg other]
  refine meets_seq (meets_pass (meets_seq (meets_ifElse (meets_simple ?_))))
  simp only [unset, Option.isSome_none, Bool.false_eq_true, ↓reduceIte, settle_ignored, Continues,
    Nat.reduceEqDiff]
  refine call_meets defined fun fuel => ?_
  refine (run (call site fuel)).mono fun flow after holds => ?_
  obtain ⟨code, shape | shape⟩ := called_cases errexit flow
  · rw [shape]
    exact meets_pass holds
  · rw [shape]
    exact holds

theorem botbrew_default (book : PlainBook site) (post : World → Prop) {fuel : Nat} {action : String}
    {body : Fun} {code : Status} (listed : action ∈ actions) (hook : "botbrew_do_" ++ action ∈ hooks)
    (other : action ≠ "build" ∧ "botbrew_do_" ++ action ≠ "botbrew_do_build")
    (standard : "_botbrew_do_" ++ action ∈ scriptFuns)
    (defined : site.funs ("_botbrew_do_" ++ action) = some body) (missing : post world)
    (run : site.HasRecipe dir → ∀ env, Entered book dir env → ∀ call,
      Meets false (runFun site call ("_botbrew_do_" ++ action) [] body) true ⟨⟨dir, env⟩, world⟩
        fun _ after => post after.world)
    (ends : botbrew site fuel dir [action] world = some (code, after)) : post after := by
  obtain ⟨⟨flow, machine⟩, ran, same⟩ := Option.map_eq_some_iff.mp ends
  obtain ⟨_, rfl⟩ := Prod.mk.inj same
  have meets : Meets false (call site fuel "botbrew_recipe" [action]) true ⟨⟨dir, site.env⟩, world⟩
      fun _ after => post after.world := by
    refine call_meets rfl fun fuel => ?_
    cases found : site.recipe dir "recipe" with
    | none =>
        refine Meets.of_eq (show _ = some (Flow.ret 1, ⟨⟨dir, site.env⟩, world⟩) from ?_) missing
        simp [runFun, botbrew_recipe, reading, Site.env, Site.vars, Vars.scalar, found, returnWith]
    | some recipe =>
        have acting : (site.env.set "PACKAGE_ACTION" [action]).Standard site :=
          site.env_standard.set (by decide) [action]
        have entered := (entered_source book acting found).listDepends
        have body : runFun site (call site fuel) "botbrew_recipe" [action] .botbrew_recipe true
              ⟨⟨dir, site.env⟩, world⟩ =
            withLocals (setVar "PACKAGE_ACTION" [action])
              (subshell (seq (setLocals (enter recipe)) (perform (call site fuel) action []))) true
              ⟨⟨dir, site.env⟩, world⟩ := by
          simp [runFun, botbrew_recipe, reading, Site.env, Site.vars, Vars.scalar, found]
        refine Meets.congr ?_ body
        refine meets_withLocals (meets_subshell (meets_seq (meets_setLocals ?_)))
        have known := (entered.standard.funs _ standard).trans defined
        have present : site.HasRecipe dir := by simp [Site.HasRecipe, found]
        exact perform_meets listed other.1 (entered.hooks _ hook other.2) known (run present _ entered)
  exact meets.post_of_eq ran

/-! `_botbrew_do_package` -/

/-- Packages were made of `dir`, in a session that may go on. -/
structure Packaged (site : Site) (dir : Dir) (world after : World) : Prop where
  tree : after.tree = world.tree
  log : ∃ handed : List String, after.log = handed.map (.packaged dir · (world.tree dir)) ++ world.log ∧
    (handed ≠ [] → site.isDir [site.root, "repo"] ∧ site.packages dir ≠ [])

theorem buildyaml_meets {items : List String} {errexit : Bool} (machine : Machine) (tree : Tree) :
    machine.world.tree dir = tree → Meets false (forEach items (buildyaml site dir)) errexit machine
      fun _ after => after.world.tree = machine.world.tree ∧ ∃ handed : List String,
        after.world.log = handed.map (.packaged dir · tree) ++ machine.world.log ∧ (handed ≠ [] → items ≠ []) := by
  induction items generalizing machine with
  | nil => exact fun _ => meets_pass ⟨rfl, [], rfl, fun some => absurd rfl some⟩
  | cons item rest ih =>
      intro found
      refine meets_seq (meets_simple ?_)
      obtain ⟨code, shape⟩ : ∃ code, settle errexit (site.outcome machine.world.clock).code = .done code ∨
          settle errexit (site.outcome machine.world.clock).code = .exit code := ⟨_, settle_cases _ _⟩
      have handed : item :: rest ≠ [] := List.cons_ne_nil _ _
      rcases shape with goes | stops
      · rw [goes]
        refine (ih ⟨machine.locals, machine.world.tick.record _⟩ found).mono fun _ after holds => ?_
        obtain ⟨same, others, log, _⟩ := holds
        refine ⟨same, others ++ [item], ?_, fun _ => handed⟩
        rw [log, ← found]
        simp
      · rw [stops]
        exact ⟨rfl, [item], by rw [← found]; rfl, fun _ => handed⟩

theorem package_packaged (book : PlainBook site) {fuel : Nat} {code : Status}
    (ends : botbrew site fuel dir ["package"] world = some (code, after)) :
    Packaged site dir world after ∧ (after.log ≠ world.log → site.HasRecipe dir) := by
  refine botbrew_default book
    (fun after => Packaged site dir world after ∧ (after.log ≠ world.log → site.HasRecipe dir))
    (by decide) (by decide) (by decide) (by decide) rfl ?_ ?_ ends
  · exact ⟨⟨rfl, [], rfl, fun some => absurd rfl some⟩, fun changed => absurd rfl changed⟩
  · intro present env entered call
    have repo : [env.vars.scalar "G_ROOT", env.vars.scalar "G_REPO"] = [site.root, "repo"] := by
      rw [entered.standard.scalar (by decide), entered.standard.scalar (by decide)]
      rfl
    have body : runFun site call "_botbrew_do_package" [] .do_package true ⟨⟨dir, env⟩, world⟩ =
        subshell (seq (setLocals (setVar "CWD" ["/".intercalate dir]))
          (seq (cd site fun vars => [vars.scalar "G_ROOT", vars.scalar "G_REPO"])
            (forEach (site.packages dir) (buildyaml site dir)))) true ⟨⟨dir, env⟩, world⟩ := rfl
    refine Meets.congr ?_ body
    refine meets_subshell (meets_seq (meets_setLocals (meets_seq (meets_simple ?_))))
    have target : [(env.set "CWD" ["/".intercalate dir]).vars.scalar "G_ROOT",
        (env.set "CWD" ["/".intercalate dir]).vars.scalar "G_REPO"] = [site.root, "repo"] := repo
    simp only [setVar, target]
    cases isDir : site.isDir [site.root, "repo"] with
    | false => exact ⟨⟨rfl, [], rfl, fun some => absurd rfl some⟩, fun changed => absurd rfl changed⟩
    | true =>
        refine (buildyaml_meets ⟨_, world⟩ _ rfl).mono fun _ after holds => ?_
        obtain ⟨same, handed, log, some⟩ := holds
        exact ⟨⟨same, handed, log, fun made => ⟨isDir, some made⟩⟩, fun _ => present⟩

/-! The actions that remove files -/

structure Removed (world after : World) : Prop where
  log : after.log = world.log
  built : ∀ other, Built after other → Built world other

theorem removed_external {effect : Vars → Outcome → Tree → Tree} {errexit : Bool}
    (removes : ∀ outcome tree, (effect env.vars outcome tree exportMark).isSome → (tree exportMark).isSome) :
    Meets false (external site effect) errexit ⟨⟨dir, env⟩, world⟩ fun _ after => Removed world after.world := by
  refine meets_simple ⟨rfl, fun other built => ?_⟩
  unfold Built at built ⊢
  by_cases same : other = dir
  · subst same
    simp only [World.update_tree_self, World.tick_tree] at built
    exact removes _ _ built
  · simpa only [World.update_tree_of_ne same, World.tick_tree] using built

theorem removeTops_exportMark (tops : List String) (outcome : Outcome) (tree : Tree)
    (present : (removeTops tops outcome tree exportMark).isSome) : (tree exportMark).isSome := by
  simp only [exportMark, removeTops] at present ⊢
  split at present
  case isTrue => cases present
  case isFalse => exact present

theorem removed_remove (names : List String) {errexit : Bool} :
    Meets false (remove site names) errexit ⟨⟨dir, env⟩, world⟩ fun _ after => Removed world after.world := by
  unfold remove
  exact removed_external fun outcome tree => removeTops_exportMark (names.map env.vars.scalar) outcome tree

theorem removed_cleaned (book : PlainBook site) {fuel : Nat} {code : Status} {action : Action}
    (cleans : action = .clean ∨ action = .distclean ∨ action = .clobber)
    (ends : botbrew site fuel dir [action.name] world = some (code, after)) : Removed world after := by
  have nothing : Removed world world := ⟨rfl, fun _ built => built⟩
  rcases cleans with rfl | rfl | rfl
  · refine botbrew_default book (Removed world) (by decide) (by decide) (by decide) (by decide) rfl nothing ?_ ends
    intro _ env entered call
    refine meets_ifElse (meets_simple ?_)
    simp only [settle_ignored, Continues]
    split
    · refine removed_external fun outcome tree present => ?_
      have object : env.vars.scalar "G_OBJECT" = "object" := entered.standard.scalar (by decide)
      simpa [object, exportMark] using present
    · exact meets_pass nothing
  · refine botbrew_default book (Removed world) (by decide) (by decide) (by decide) (by decide) rfl nothing ?_ ends
    exact fun _ env _ call => removed_remove ["G_OBJECT", "G_IMPORT"]
  · refine botbrew_default book (Removed world) (by decide) (by decide) (by decide) (by decide) rfl nothing ?_ ends
    exact fun _ env _ call => removed_remove ["G_SOURCE", "G_OBJECT", "G_IMPORT", "G_EXPORT"]

/-! Builds -/

theorem lastBuild_append {dir : Dir} {recent : List Event} (quiet : ¬Began dir recent) (log : List Event) :
    lastBuild dir (recent ++ log) = recent ++ lastBuild dir log := by
  refine List.takeWhile_append_of_pos fun event member => ?_
  cases begins : event.beginsIn dir with
  | false => rfl
  | true => exact absurd ⟨event, member, begins⟩ quiet

theorem lastBuild_began {dir : Dir} {recent : List Event} (began : Began dir recent) (log : List Event) :
    lastBuild dir (recent ++ log) = lastBuild dir recent := by
  induction recent with
  | nil => exact absurd began (by simp [Began])
  | cons event recent ih =>
      simp only [lastBuild, List.cons_append, List.takeWhile_cons]
      cases begins : event.beginsIn dir with
      | true => rfl
      | false =>
          have later : Began dir recent := by simpa [Began, begins] using began
          simpa [lastBuild] using ih later

theorem began_append {dir : Dir} {recent log : List Event} :
    Began dir (recent ++ log) ↔ Began dir recent ∨ Began dir log := by
  simp only [Began, List.mem_append, or_and_right, exists_or]

/-- What a build knows of the recipes that are built: it found them so, or it built them. -/
structure Dated (start : Dir → Tree) (world : World) : Prop where
  built : ∀ dir, Built world dir → ((start dir exportMark).isSome ∧ ¬Began dir world.log) ∨
    (Began dir world.log ∧ .touched dir 0 ∈ lastBuild dir world.log)
  unpackaged : ∀ dir item tree, .packaged dir item tree ∉ world.log

structure Steady (world after : World) : Prop where
  built : ∀ dir, Built after dir → Built world dir
  log : ∃ recent, after.log = recent ++ world.log ∧ (∀ dir, ¬Began dir recent) ∧
    ∀ dir item tree, .packaged dir item tree ∉ recent

theorem Dated.steady {start : Dir → Tree} (dated : Dated start world) (steady : Steady world after) :
    Dated start after := by
  obtain ⟨recent, log, quiet, unpackaged⟩ := steady.log
  refine ⟨fun dir built => ?_, fun dir item tree member => ?_⟩
  · rw [log, lastBuild_append (quiet dir), began_append]
    rcases dated.built dir (steady.built dir built) with ⟨before, never⟩ | ⟨began, touched⟩
    · exact .inl ⟨before, fun either => either.elim (quiet dir) never⟩
    · exact .inr ⟨.inr began, List.mem_append_right _ touched⟩
  · rw [log, List.mem_append] at member
    exact member.elim (unpackaged dir item tree) (dated.unpackaged dir item tree)

theorem steady_of_marks (marks : ∀ dir, SameMarks dir world after) (recent : List Event)
    (log : after.log = recent ++ world.log) (quiet : ∀ dir, ¬Began dir recent)
    (unpackaged : ∀ dir item tree, .packaged dir item tree ∉ recent) : Steady world after where
  built dir built := by
    unfold Built at built ⊢
    rwa [← marks dir _ isMark_export]
  log := ⟨recent, log, quiet, unpackaged⟩

theorem steady_afterExternal (dir : Dir) (guarded : Bool) (effect : Effect) (vars : Vars) :
    Steady world (world.afterExternal site dir guarded effect vars) :=
  steady_of_marks (fun other => sameMarks_afterExternal world other guarded effect vars) [_] rfl
    (by simp [Began, Event.beginsIn, Event.begins]) (by simp)

theorem steady_record (dir : Dir) (code : Status) : Steady world (world.record (.ran dir false code)) :=
  steady_of_marks (fun _ _ _ => rfl) [_] rfl (by simp [Began, Event.beginsIn, Event.begins]) (by simp)

theorem steady_entered (dir : Dir) : Steady world (world.record (.called dir "botbrew_import")).tick :=
  steady_of_marks (fun _ _ _ => rfl) [_] rfl (by simp [Began, Event.beginsIn, Event.begins]) (by simp)

theorem steady_afterCall (dir : Dir) (name : String) (flow : Flow) : Steady world (world.afterCall dir name flow) := by
  cases flow with
  | exit code => exact steady_of_marks (fun _ _ _ => rfl) [] rfl (by simp [Began]) (by simp)
  | done code | ret code =>
      exact steady_of_marks (fun _ _ _ => rfl) [_] rfl (by simp [Began, Event.beginsIn, Event.begins]) (by simp)

theorem steady_afterCopy (dir : Dir) (item : String) : Steady world (world.afterCopy site dir item) := by
  have marks : ∀ other, SameMarks other world (world.afterCopy site dir item) :=
    fun other => sameMarks_afterCopy world other item
  by_cases success : (site.outcome world.clock).code = 0
  · exact steady_of_marks marks [.copied dir item (world.tree (site.itemDir item))]
      (by simp [World.afterCopy, success]) (by simp [Began, Event.beginsIn, Event.begins]) (by simp)
  · exact steady_of_marks marks [] (by simp [World.afterCopy, success]) (by simp [Began]) (by simp)

theorem steady_afterMark (dir : Dir) (item : String) : Steady world (world.afterMark site dir item) where
  built other built := by
    unfold Built at built ⊢
    by_cases same : other = dir
    · rwa [same, afterMark_exportMark, ← same] at built
    · rwa [sameMarks_afterMark world same item _ isMark_export] at built
  log := ⟨[], rfl, by simp [Began], by simp⟩

theorem Dated.record_called {start : Dir → Tree} (dated : Dated start world) (unbuilt : world.tree dir exportMark = none) :
    Dated start (world.record (.called dir "botbrew_do_build")) := by
  refine ⟨fun other built => ?_, fun other item tree member => ?_⟩
  · have different : ¬dir = other := by
      rintro rfl
      simp [Built, unbuilt] at built
    have quiet : ¬Began other [.called dir "botbrew_do_build"] := by
      simp [Began, Event.beginsIn, Event.begins, Event.dir, different]
    have log : (world.record (.called dir "botbrew_do_build")).log =
      [.called dir "botbrew_do_build"] ++ world.log := rfl
    rw [log, lastBuild_append quiet, began_append]
    rcases dated.built other built with ⟨before, never⟩ | ⟨began, touched⟩
    · exact .inl ⟨before, fun either => either.elim quiet never⟩
    · exact .inr ⟨.inr began, List.mem_append_right _ touched⟩
  · exact dated.unpackaged other item tree (by simpa using member)

theorem Dated.afterTouch {start : Dir → Tree} (dated : Dated start world) (began : Began dir world.log) :
    Dated start (world.afterTouch site dir) := by
  have log : (world.afterTouch site dir).log = [.ran dir false (site.outcome world.clock).code,
    .touched dir (site.outcome world.clock).code] ++ world.log := rfl
  have quiet : ∀ other, ¬Began other [.ran dir false (site.outcome world.clock).code,
      .touched dir (site.outcome world.clock).code] := by
    simp [Began, Event.beginsIn, Event.begins]
  refine ⟨fun other built => ?_, fun other item tree member => ?_⟩
  · rw [log, lastBuild_append (quiet other), began_append]
    by_cases touched : other = dir ∧ (site.outcome world.clock).code = 0
    · obtain ⟨rfl, success⟩ := touched
      exact .inr ⟨.inr began, by simp [success]⟩
    · have before : Built world other := by
        unfold Built at built ⊢
        by_cases same : other = dir
        · have failed : (site.outcome world.clock).code ≠ 0 := fun success => touched ⟨same, success⟩
          simpa [World.afterTouch, same, failed] using built
        · rwa [sameMarks_afterTouch world same _ isMark_export] at built
      rcases dated.built other before with ⟨found, never⟩ | ⟨other_began, earlier⟩
      · exact .inl ⟨found, fun either => either.elim (quiet other) never⟩
      · exact .inr ⟨.inr other_began, List.mem_append_right _ earlier⟩
  · exact dated.unpackaged other item tree (by simpa [log] using member)

/-- Only the body of a build that has begun creates `export/.d`. -/
def Task.HasBegun (world : World) : Task → Prop
  | .steps _ dir _ => Began dir world.log
  | _ => True

theorem Began.within {other : Dir} (began : Began dir world.log) (within : Within book other world after) :
    Began dir after.log := by
  obtain ⟨event, member, begins⟩ := began
  exact ⟨event, within.mem_log member, begins⟩

theorem Run.dated {start : Dir → Tree} {task : Task} {flow : Flow} (run : Run book task world flow after)
    (valid : task.Valid book) (begun : task.HasBegun world) (dated : Dated start world) : Dated start after := by
  induction run with
  | missing | built | all_imported | no_directory => exact dated
  | @build _ dir world _ _ present unbuilt _ ih =>
      have here : Began dir (world.record (.called dir "botbrew_do_build")).log :=
        ⟨_, List.mem_cons_self, by simp [Event.beginsIn, Event.begins, Event.dir]⟩
      exact (ih present here (dated.record_called unbuilt)).steady (steady_afterCall _ _ _)
  | touch => exact dated.afterTouch begun
  | external_exit => exact dated.steady (steady_afterExternal _ _ _ _)
  | @external _ dir world guarded effect vars _ _ _ _ _ ih =>
      have within : Within book dir world (world.afterExternal site dir guarded effect vars) :=
        within_afterExternal _ _ _ _
      exact ih valid (begun.within within) (dated.steady (steady_afterExternal _ _ _ _))
  | import_exit _ ih => exact (ih valid trivial dated).steady (steady_record _ _)
  | @importing _ dir world code middle _ _ _ run _ importIH restIH =>
      have within : Within book dir world (middle.record (.ran dir false code)) :=
        (run.within valid).trans (.record (by rfl) _)
      exact restIH valid (begun.within within) ((importIH valid trivial dated).steady (steady_record _ _))
  | mkdir_exit => exact dated.steady (steady_entered _)
  | mkdir _ _ ih =>
      exact (ih ⟨valid, fun _ member => member⟩ trivial (dated.steady (steady_entered _))).steady
        (steady_afterCall _ _ _)
  | imported _ _ ih => exact ih valid.tail trivial dated
  | build_failed _ _ _ _ ih => exact ih trivial trivial dated
  | copy_failed _ _ _ _ ih => exact (ih trivial trivial dated).steady (steady_afterCopy _ _)
  | mark_failed _ _ _ _ _ ih =>
      exact ((ih trivial trivial dated).steady (steady_afterCopy _ _)).steady (steady_afterMark _ _)
  | import_item _ _ _ _ _ _ buildIH restIH =>
      exact restIH valid.tail trivial
        (((buildIH trivial trivial dated).steady (steady_afterCopy _ _)).steady (steady_afterMark _ _))

/-! Sessions -/

/-- Each recipe that is built was built without a failure, and packages were made of such recipes. -/
structure Orderly (world : World) : Prop where
  built : ∀ dir, Built world dir → Finished dir world.log (world.tree dir)
  packages : PackagesFinished world.log

theorem Finished.grow {recent older : List Event} {before tree : Tree} (finished : Finished dir older before)
    (marked : (tree exportMark).isSome) (quiet : ¬Began dir recent)
    (succeeded : ∀ code, .ran dir false code ∈ recent → code = 0) : Finished dir (recent ++ older) tree where
  marked := marked
  completed began := by
    rw [lastBuild_append quiet]
    exact List.mem_append_right _ (finished.completed ((began_append.mp began).resolve_left quiet))
  succeeded code member := by
    rw [lastBuild_append quiet, List.mem_append] at member
    exact member.elim (succeeded code) (finished.succeeded code)

theorem PackagesFinished.append {recent log : List Event} (finished : PackagesFinished log)
    (packages : ∀ newer dir item tree older, recent = newer ++ .packaged dir item tree :: older →
      Finished dir (older ++ log) tree) : PackagesFinished (recent ++ log) := by
  intro newer dir item tree older split
  rcases List.append_eq_append_iff.mp split with ⟨between, rfl, rest⟩ | ⟨between, here, rest⟩
  · exact finished between dir item tree older rest
  · cases between with
    | nil =>
        rw [List.append_nil] at here
        exact finished [] dir item tree older rest.symm
    | cons event between =>
        obtain ⟨rfl, rfl⟩ := List.cons.inj rest
        exact packages newer dir item tree between here

theorem Run.silent {errexit : Bool} {flow : Flow} (run : Run book (.recipe errexit dir) world.afresh flow after)
    (built : (world.tree dir exportMark).isSome) : after.log = [] := by
  cases run with
  | missing | built => rfl
  | build _ unbuilt =>
      have absent : world.tree dir exportMark = none := unbuilt
      simp [absent] at built

theorem Orderly.build (orderly : Orderly world) {code : Status}
    (run : Run book (.recipe true dir) world.afresh (.done code) after) (succeed : ImportsSucceed dir after.log) :
    Orderly (world.since after) := by
  have start : Dated world.tree world.afresh :=
    ⟨fun _ built => .inl ⟨built, by simp [Began, World.afresh]⟩, by simp [World.afresh]⟩
  have dated : Dated world.tree after := run.dated trivial trivial start
  have here : Built after dir → ∀ code, .ran dir false code ∈ after.log → code = 0 := by
    intro built code member
    rcases run.top_unfailed rfl with unfailed | ⟨_, untouched⟩
    · exact unfailed code member
    · rcases dated.built dir built with ⟨before, _⟩ | ⟨_, touched⟩
      · rw [run.silent before] at member
        exact nomatch member
      · exact absurd (List.takeWhile_subset _ touched) untouched
  have each : ∀ other, Built after other → ∀ code, .ran other false code ∈ after.log → code = 0 := by
    intro other built code member
    by_cases same : other = dir
    · subst same
      exact here built code member
    · exact succeed other same code member
  refine ⟨fun other built => ?_, orderly.packages.append fun newer other item tree older split => ?_⟩
  · rcases dated.built other built with ⟨before, never⟩ | ⟨began, touched⟩
    · exact (orderly.built other before).grow built never (each other built)
    · have log : lastBuild other (world.since after).log = lastBuild other after.log := lastBuild_began began _
      refine ⟨built, fun _ => log ▸ touched, fun code member => each other built code ?_⟩
      rw [log] at member
      exact List.takeWhile_subset _ member
  · exact absurd (by simp [split]) (dated.unpackaged other item tree)

theorem Orderly.package (orderly : Orderly world) (packaged : Packaged site dir world.afresh after)
    (careful : after.log ≠ [] → Built world dir) : Orderly (world.since after) := by
  obtain ⟨handed, log, _⟩ := packaged.log
  have events : after.log = handed.map (.packaged dir · (world.tree dir)) := by simpa [World.afresh] using log
  have quiet : ∀ other, ¬Began other after.log := by
    simp [events, Began, Event.beginsIn, Event.begins]
  have built_before : ∀ other, Built after other → Built world other := by
    intro other built
    rwa [Built, packaged.tree] at built
  refine ⟨fun other built => ?_, orderly.packages.append fun newer other item tree older split => ?_⟩
  · exact (orderly.built other (built_before other built)).grow built (quiet other) (by simp [events])
  · have handed_over : .packaged other item tree ∈ after.log := by simp [split]
    obtain ⟨rfl, rfl⟩ : dir = other ∧ world.tree dir = tree := by
      rw [events] at handed_over
      obtain ⟨_, _, same⟩ := List.mem_map.mp handed_over
      cases same
      exact ⟨rfl, rfl⟩
    have marked : Built world dir := careful (List.ne_nil_of_mem handed_over)
    have sub : older ⊆ after.log := by
      rw [split]
      exact fun event member => List.mem_append_right _ (List.mem_cons_of_mem _ member)
    refine (orderly.built dir marked).grow marked ?_ fun code member => ?_
    · exact fun began => quiet dir (began.imp fun _ found => ⟨sub found.1, found.2⟩)
    · have ran := sub member
      simp [events] at ran

theorem Orderly.remove (orderly : Orderly world) (removed : Removed world.afresh after) :
    Orderly (world.since after) := by
  have log : (world.since after).log = world.log := by simp [World.since, removed.log, World.afresh]
  refine ⟨fun other built => ?_, ?_⟩
  · obtain ⟨_, completed, succeeded⟩ := orderly.built other (removed.built other built)
    rw [log]
    exact ⟨built, completed, succeeded⟩
  · rw [log]
    exact orderly.packages

theorem Orderly.session (book : PlainBook site) {fuel : Nat} {runs : List (Dir × Action)}
    (orderly : Orderly world) (careful : CarefulSession site fuel runs world)
    (ends : session site fuel runs world = some after) : Orderly after := by
  induction runs generalizing world with
  | nil =>
      obtain rfl := Option.some.inj ends
      exact orderly
  | cons first rest ih =>
      obtain ⟨dir, action⟩ := first
      obtain ⟨⟨code, middle⟩, ran, later⟩ := Option.bind_eq_some_iff.mp ends
      obtain ⟨here, further⟩ := careful code middle ran
      refine ih ?_ further later
      cases action with
      | build => exact orderly.build (botbrew_build_run book ran) here
      | package =>
          obtain ⟨packaged, present⟩ := package_packaged book ran
          refine orderly.package packaged fun some => ?_
          obtain ⟨handed, log, reached⟩ := packaged.log
          have made : handed ≠ [] := by
            rintro rfl
            exact some log
          exact here (present some) (reached made).1 (reached made).2
      | clean => exact orderly.remove (removed_cleaned book (.inl rfl) ran)
      | distclean => exact orderly.remove (removed_cleaned book (.inr (.inl rfl)) ran)
      | clobber => exact orderly.remove (removed_cleaned book (.inr (.inr rfl)) ran)

/-- In every session in which only built recipes are packaged and imported recipes do not fail,
what is packaged is the result of a finished build. -/
theorem session_packages_finished (book : PlainBook site) (fuel : Nat) (runs : List (Dir × Action))
    (tree : Dir → Tree) (careful : CarefulSession site fuel runs (.start tree)) {after : World}
    (ends : session site fuel runs (.start tree) = some after) : PackagesFinished after.log := by
  have start : Orderly (World.start tree) := by
    refine ⟨fun dir built => ⟨built, ?_, ?_⟩, ?_⟩
    · simp [Began, World.start]
    · simp [lastBuild, World.start]
    · simp [PackagesFinished, World.start]
  exact (start.session book careful ends).packages

/-! A cookbook of two recipes with package descriptions -/

def packagedRecipes (outcome : Nat → Outcome) : Site :=
  { twoRecipes outcome with
    isDir := fun dir => dir == libDir || dir == appDir || dir == ["/home", "repo"]
    packages := fun _ => ["control.yml"] }

def packagedPlain (outcome : Nat → Outcome) : PlainBook (packagedRecipes outcome) where
  depend := (twoPlain outcome).depend
  steps := (twoPlain outcome).steps
  plain := (twoPlain outcome).plain

theorem session_packages_finished_app :
    ∃ after, session (packagedRecipes succeeds) 8 [(appDir, .build), (appDir, .package)]
        (.start fun _ _ => none) = some after ∧
      (∃ tree, .packaged appDir "control.yml" tree ∈ after.log) ∧ PackagesFinished after.log := by
  have built : (botbrew (packagedRecipes succeeds) 8 appDir ["build"] (World.start fun _ _ => none).afresh).map
      (fun ending => (ending.2.log.all fun
        | .ran _ _ code => code = 0
        | _ => true, (ending.2.tree appDir exportMark).isSome)) = some (true, true) := by
    decide +kernel
  have packaged : (session (packagedRecipes succeeds) 8 [(appDir, .build), (appDir, .package)]
      (.start fun _ _ => none)).map (fun after => after.log.any fun
        | .packaged dir item _ => dir = appDir ∧ item = "control.yml"
        | _ => false) = some true := by
    decide +kernel
  obtain ⟨after, ends, handed⟩ := Option.map_eq_some_iff.mp packaged
  refine ⟨after, ends, ?_, session_packages_finished (packagedPlain succeeds) 8 _ _ ?_ ends⟩
  · obtain ⟨event, member, found⟩ := List.any_eq_true.mp handed
    cases event with
    | packaged dir item tree =>
        obtain ⟨rfl, rfl⟩ : dir = appDir ∧ item = "control.yml" := by simpa using found
        exact ⟨tree, member⟩
    | _ => cases found
  · intro code middle ran
    obtain ⟨ending, same, observed⟩ := Option.map_eq_some_iff.mp built
    obtain rfl := Option.some.inj (same.symm.trans ran)
    obtain ⟨succeeded, marked⟩ := Prod.mk.inj observed
    refine ⟨fun dir _ code member => ?_, fun _ _ _ => ⟨fun _ _ _ => marked, trivial⟩⟩
    simpa using List.all_eq_true.mp succeeded _ member

/-- The second command of the session fails, which is the `make install` of `lib`. -/
def firstInstallFails (clock : Nat) : Outcome := { code := if clock = 1 then 1 else 0, progress _ := true }

/-- The build of `lib` fails, and what it left is packaged. -/
theorem session_packages_unfinished :
    ¬ ∀ (site : Site) (_ : PlainBook site) (fuel : Nat) (runs : List (Dir × Action)) (tree : Dir → Tree)
      (after : World), session site fuel runs (.start tree) = some after → PackagesFinished after.log := by
  intro finished
  have observed : (session (packagedRecipes firstInstallFails) 8 [(libDir, .build), (libDir, .package)]
      (.start fun _ _ => none)).map (fun after => after.log.any fun
        | .packaged _ _ tree => (tree exportMark).isNone
        | _ => false) = some true := by
    decide +kernel
  obtain ⟨after, ends, handed⟩ := Option.map_eq_some_iff.mp observed
  obtain ⟨event, member, unmarked⟩ := List.any_eq_true.mp handed
  obtain ⟨newer, older, split⟩ := List.append_of_mem member
  cases event with
  | packaged dir item tree =>
      have complete := finished _ (packagedPlain firstInstallFails) 8 _ _ after ends newer dir item tree older split
      have marked := complete.marked
      simp [Option.isNone_iff_eq_none.mp unmarked] at marked
  | _ => cases unmarked

end BotBrew.Cookbook
