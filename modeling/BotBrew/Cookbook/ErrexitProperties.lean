import BotBrew.Shell.TwoRuns
import BotBrew.Cookbook.Functions

/-! With errexit a run is left at a failure, or goes as without. -/

set_option autoImplicit false

namespace BotBrew.Cookbook

open Shell Shell.Script

variable {site : Site} {call : Call}

theorem stopsOrSame_reading {script : Machine → Script} (scripts : ∀ machine, StopsOrSame (script machine)) :
    StopsOrSame (reading script) :=
  fun machine => scripts machine machine

section Stopping

variable (calls : ∀ name args, StopsOrSame (call name args))

include calls

theorem importItem_stopsOrSame (dst item : String) : StopsOrSame (importItem site call dst item) := by
  refine stopsOrSame_seq (stopsOrSame_of_eq fun _ => rfl) ?_
  refine stopsOrSame_ifElse (stopsOrSame_simple _) (stopsOrSame_status 0) ?_
  refine stopsOrSame_orIf (stopsOrSame_andIf (stopsOrSame_andIf ?_ (stopsOrSame_reading fun _ =>
    stopsOrSame_simple _)) (stopsOrSame_simple _)) (stopsOrSame_of_eq fun _ => rfl)
  exact stopsOrSame_subshell (stopsOrSame_andIf (stopsOrSame_simple _) (calls _ _))

theorem botbrew_import_stopsOrSame (args : List String) : StopsOrSame (botbrew_import site call args) := by
  refine stopsOrSame_reading fun machine => stopsOrSame_withLocals _ (stopsOrSame_seq (stopsOrSame_simple _) ?_)
  exact stopsOrSame_forEach _ fun item => importItem_stopsOrSame calls _ item

theorem dispatch_stopsOrSame (action : String) (args : List String) : StopsOrSame (dispatch call action args) :=
  stopsOrSame_ifElse (stopsOrSame_simple _) (calls _ _) (calls _ _)

theorem perform_stopsOrSame (action : String) (args : List String) : StopsOrSame (perform call action args) := by
  have checked : ∀ name, StopsOrSame (ifElse (call name args) (exitWith 0) pass) := fun name =>
    stopsOrSame_ifElse (calls name args) (stopsOrSame_of_eq fun _ => rfl) (stopsOrSame_status 0)
  unfold perform
  split
  · refine stopsOrSame_seq ?_ (stopsOrSame_seq (dispatch_stopsOrSame calls action args) (stopsOrSame_status 0))
    split
    · exact stopsOrSame_ifElse (stopsOrSame_simple _) (checked _) (checked _)
    · exact stopsOrSame_status 0
  · exact stopsOrSame_status 0

theorem botbrew_recipe_stopsOrSame (args : List String) : StopsOrSame (botbrew_recipe site call args) := by
  refine stopsOrSame_reading fun machine => ?_
  cases site.recipe machine.locals.cwd (machine.locals.env.vars.scalar "G_RECIPE") with
  | none => exact stopsOrSame_of_eq fun _ => rfl
  | some recipe =>
      refine stopsOrSame_withLocals _ (stopsOrSame_subshell (stopsOrSame_seq ?_ (perform_stopsOrSame calls _ _)))
      exact stopsOrSame_of_eq fun _ => rfl

theorem runCommand_stopsOrSame (command : Command) : StopsOrSame (runCommand site call command) := by
  have reports : ∀ guarded {command : Script}, StopsOrSame command → StopsOrSame (report guarded command) := by
    intro guarded command commands
    refine stopsOrSame_guardedBy guarded (stopsOrSame_map commands (fun machine => machine)
      (fun machine flow after => record (.ran machine.locals.cwd guarded flow.status) after) fun errexit machine => ?_)
    cases command errexit machine <;> rfl
  cases command with
  | external guarded effect => exact reports guarded (stopsOrSame_simple _)
  | touchMark =>
      have touches : StopsOrSame (touchExport site) := by
        unfold touchExport
        exact stopsOrSame_reading fun machine => stopsOrSame_simple _
      exact reports false touches
  | call guarded name args => exact reports guarded (calls name args)

theorem runCommands_stopsOrSame (commands : List Command) : StopsOrSame (runCommands site call commands) := by
  induction commands with
  | nil => exact stopsOrSame_status 0
  | cons command rest ih =>
      cases rest with
      | nil => exact runCommand_stopsOrSame calls command
      | cons next rest => exact stopsOrSame_seq (runCommand_stopsOrSame calls command) ih

omit calls in
theorem logged_stopsOrSame (name : String) {body : Script} (bodies : StopsOrSame body) :
    StopsOrSame (logged name body) := by
  intro machine
  rcases bodies (record (.called machine.locals.cwd name) machine) with ⟨code, after, failed, left⟩ | same
  · exact .inl ⟨code, after, failed, by simp only [logged, left]⟩
  · exact .inr (by simp only [logged, same])

theorem runFun_stopsOrSame (name : String) (args : List String) (body : Fun) :
    StopsOrSame (runFun site call name args body) := by
  cases body with
  | body commands => exact logged_stopsOrSame name (runCommands_stopsOrSame calls commands)
  | botbrew_import => exact logged_stopsOrSame name (botbrew_import_stopsOrSame calls args)
  | botbrew_recipe => exact botbrew_recipe_stopsOrSame calls args
  | do_query => exact stopsOrSame_status 0
  | do_build => exact stopsOrSame_status 0
  | do_package =>
      unfold runFun _botbrew_do_package
      refine stopsOrSame_reading fun machine => stopsOrSame_subshell ?_
      refine stopsOrSame_seq (stopsOrSame_of_eq fun _ => rfl) ?_
      exact stopsOrSame_seq (stopsOrSame_simple _) (stopsOrSame_forEach _ fun item => stopsOrSame_simple _)
  | do_clean => exact stopsOrSame_ifElse (stopsOrSame_simple _) (stopsOrSame_simple _) (stopsOrSame_status 0)
  | do_distclean => exact stopsOrSame_simple _
  | do_clobber => exact stopsOrSame_simple _
  | do_isbuilt =>
      exact stopsOrSame_ifElse (stopsOrSame_simple _) (stopsOrSame_of_eq fun _ => rfl) (stopsOrSame_of_eq fun _ => rfl)

end Stopping

theorem call_stopsOrSame (site : Site) (fuel : Nat) (name : String) (args : List String) :
    StopsOrSame (Cookbook.call site fuel name args) := by
  induction fuel generalizing name args with
  | zero => exact stopsOrSame_of_eq fun _ => rfl
  | succ fuel ih =>
      refine stopsOrSame_reading fun machine => ?_
      cases machine.locals.env.funs name with
      | none => exact stopsOrSame_simple _
      | some body => exact stopsOrSame_function (runFun_stopsOrSame ih name args body)

end BotBrew.Cookbook
