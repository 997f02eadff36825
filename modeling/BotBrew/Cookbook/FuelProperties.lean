import BotBrew.Cookbook.Functions

/-! A run that ends with some fuel ends in the same way with more. -/

set_option autoImplicit false

namespace BotBrew.Cookbook

open Shell Shell.Script

theorem approx_reading {script script' : Machine → Script}
    (scripts : ∀ machine, Approx (script machine) (script' machine)) :
    Approx (reading script) (reading script') :=
  fun errexit machine result ran => scripts machine errexit machine result ran

section Calls

variable {site : Site} {call call' : Call}

theorem importItem_approx (calls : ∀ name args, Approx (call name args) (call' name args))
    (dst item : String) : Approx (importItem site call dst item) (importItem site call' dst item) :=
  approx_seq (approx_refl _) (approx_ifElse (approx_refl _) (approx_refl _)
    (approx_orIf
      (approx_andIf
        (approx_andIf (approx_subshell (approx_andIf (approx_refl _) (calls _ _)))
          (approx_refl _))
        (approx_refl _))
      (approx_refl _)))

theorem botbrew_import_approx (calls : ∀ name args, Approx (call name args) (call' name args))
    (args : List String) :
    Approx (botbrew_import site call args) (botbrew_import site call' args) := by
  refine approx_reading fun machine => approx_withLocals _ (approx_seq (approx_refl _) ?_)
  exact approx_forEach _ fun item => importItem_approx calls _ item

theorem dispatch_approx (calls : ∀ name args, Approx (call name args) (call' name args))
    (action : String) (args : List String) :
    Approx (dispatch call action args) (dispatch call' action args) :=
  approx_ifElse (approx_refl _) (calls _ _) (calls _ _)

theorem perform_approx (calls : ∀ name args, Approx (call name args) (call' name args))
    (action : String) (args : List String) :
    Approx (perform call action args) (perform call' action args) := by
  unfold perform
  split
  · refine approx_seq ?_ (approx_seq (dispatch_approx calls action args) (approx_refl _))
    split
    · have isbuilt : ∀ name, Approx (ifElse (call name args) (exitWith 0) pass)
          (ifElse (call' name args) (exitWith 0) pass) :=
        fun name => approx_ifElse (calls name args) (approx_refl _) (approx_refl _)
      exact approx_ifElse (approx_refl _) (isbuilt _) (isbuilt _)
    · exact approx_refl _
  · exact approx_refl _

theorem botbrew_recipe_approx (calls : ∀ name args, Approx (call name args) (call' name args))
    (args : List String) :
    Approx (botbrew_recipe site call args) (botbrew_recipe site call' args) := by
  refine approx_reading fun machine => ?_
  cases site.recipe machine.locals.cwd (machine.locals.env.vars.scalar "G_RECIPE") with
  | none => exact approx_refl _
  | some recipe =>
      refine approx_withLocals _ (approx_subshell ?_)
      exact approx_seq (approx_refl _) (perform_approx calls _ _)

theorem report_approx {command command' : Script} (guarded : Bool)
    (commands : Approx command command') :
    Approx (report guarded command) (report guarded command') := by
  refine approx_guardedBy guarded fun errexit machine result ran => ?_
  cases inner : command errexit machine with
  | none => simp [inner] at ran
  | some ending =>
      rw [commands _ _ _ inner]
      simpa only [inner] using ran

theorem runCommand_approx (calls : ∀ name args, Approx (call name args) (call' name args))
    (command : Command) : Approx (runCommand site call command) (runCommand site call' command) := by
  cases command with
  | external guarded effect => exact approx_refl _
  | touchMark => exact approx_refl _
  | call guarded name args => exact report_approx guarded (calls name args)

theorem runCommands_approx (calls : ∀ name args, Approx (call name args) (call' name args))
    (commands : List Command) :
    Approx (runCommands site call commands) (runCommands site call' commands) := by
  induction commands with
  | nil => exact approx_refl _
  | cons command rest ih =>
      cases rest with
      | nil => exact runCommand_approx calls command
      | cons next rest => exact approx_seq (runCommand_approx calls command) ih

theorem logged_approx {body body' : Script} (name : String) (bodies : Approx body body') :
    Approx (logged name body) (logged name body') := by
  intro errexit machine result ran
  unfold logged at ran ⊢
  cases inner : body errexit (record (.called machine.locals.cwd name) machine) with
  | none => simp [inner] at ran
  | some ending =>
      rw [bodies _ _ _ inner]
      simpa only [inner] using ran

theorem runFun_approx (calls : ∀ name args, Approx (call name args) (call' name args))
    (name : String) (args : List String) (body : Fun) :
    Approx (runFun site call name args body) (runFun site call' name args body) := by
  cases body with
  | body commands => exact logged_approx name (runCommands_approx calls commands)
  | botbrew_import => exact logged_approx name (botbrew_import_approx calls args)
  | botbrew_recipe => exact botbrew_recipe_approx calls args
  | _ => exact approx_refl _

end Calls

theorem call_approx (site : Site) (fuel : Nat) (name : String) (args : List String) :
    Approx (call site fuel name args) (call site (fuel + 1) name args) := by
  induction fuel generalizing name args with
  | zero =>
      intro errexit machine result ran
      cases ran
  | succ fuel ih =>
      refine approx_reading fun machine => ?_
      cases machine.locals.env.funs name with
      | none => exact approx_refl _
      | some body => exact approx_function (runFun_approx ih name args body)

theorem call_approx_of_le (site : Site) {fuel more : Nat} (enough : fuel ≤ more) (name : String)
    (args : List String) : Approx (call site fuel name args) (call site more name args) := by
  induction enough with
  | refl => exact approx_refl _
  | step _ ih => exact approx_trans ih (call_approx site _ name args)

theorem botbrew_fuel {site : Site} {fuel more : Nat} {dir : Dir} {args : List String}
    {world : World} {result : Status × World} (enough : fuel ≤ more)
    (ends : botbrew site fuel dir args world = some result) :
    botbrew site more dir args world = some result := by
  obtain ⟨ending, ran, rfl⟩ := Option.map_eq_some_iff.mp ends
  exact Option.map_eq_some_iff.mpr
    ⟨ending, call_approx_of_le site enough "botbrew_recipe" args _ _ _ ran, rfl⟩

theorem botbrew_unique {site : Site} {fuel fuel' : Nat} {dir : Dir} {args : List String}
    {world : World} {result result' : Status × World}
    (ends : botbrew site fuel dir args world = some result)
    (ends' : botbrew site fuel' dir args world = some result') : result = result' := by
  have more := botbrew_fuel (Nat.le_max_left fuel fuel') ends
  have more' := botbrew_fuel (Nat.le_max_right fuel fuel') ends'
  exact Option.some.inj (more.symm.trans more')

end BotBrew.Cookbook
