import Mathlib.Data.List.Basic

/-! Command lists under `set -o errexit`.

A script runs in a machine whose local part (variables, functions, working
directory) a subshell restores, and whose world (files, logs) it does not.
The Boolean argument says whether errexit is in effect. It is ignored in every
element of an `&&` or `||` list but the last and in every condition, functions
and subshells called from there included. -/

set_option autoImplicit false

namespace BotBrew.Shell

abbrev Status := Nat

/-- How a command ended: with a status, by `return`, or by leaving the shell. -/
inductive Flow where
  | done (code : Status)
  | ret (code : Status)
  | exit (code : Status)
  deriving DecidableEq, Repr

def Flow.status : Flow → Status
  | .done code | .ret code | .exit code => code

structure Machine (L W : Type) where
  locals : L
  world : W

/-- `none` is a recursion that ran out of fuel. -/
abbrev Script (L W : Type) := Bool → Machine L W → Option (Flow × Machine L W)

/-- A failing command leaves the shell exactly where errexit is in effect. -/
def settle (errexit : Bool) (code : Status) : Flow :=
  if errexit && code != 0 then .exit code else .done code

@[simp] theorem settle_ignored (code : Status) : settle false code = .done code := rfl

@[simp] theorem settle_zero (errexit : Bool) : settle errexit 0 = .done 0 := by
  cases errexit <;> rfl

theorem settle_effective {code : Status} (failed : code ≠ 0) : settle true code = .exit code := by
  simp [settle, failed]

theorem settle_cases (errexit : Bool) (code : Status) :
    settle errexit code = .done code ∨ settle errexit code = .exit code := by
  unfold settle
  split
  · exact .inr rfl
  · exact .inl rfl

@[simp] theorem settle_status (errexit : Bool) (code : Status) :
    (settle errexit code).status = code := by
  unfold settle
  split <;> rfl

namespace Script

variable {L W : Type}

/-- A simple command: it changes the machine and reports a status. -/
def simple (command : Machine L W → Status × Machine L W) : Script L W :=
  fun errexit machine =>
    some (settle errexit (command machine).1, (command machine).2)

/-- A status that errexit does not look at, such as that of a short-circuited list. -/
def status (code : Status) : Script L W := fun _ machine => some (.done code, machine)

def pass : Script L W := status 0

def returnWith (code : Status) : Script L W := fun _ machine => some (.ret code, machine)

def exitWith (code : Status) : Script L W := fun _ machine => some (.exit code, machine)

/-- Assignments and the like, which change the local part and succeed. -/
def setLocals (update : L → L) : Script L W :=
  fun _ machine => some (.done 0, { machine with locals := update machine.locals })

/-- Run `first` and continue with its status, unless it left the list.
Every compound command is an instance; `tested` marks a status that is tested. -/
def follow (tested : Bool) (first : Script L W) (next : Status → Script L W) : Script L W :=
  fun errexit machine =>
    match first (errexit && !tested) machine with
    | none => none
    | some (.done code, after) => next code errexit after
    | some (flow, after) => some (flow, after)

/-- `first; second` -/
def seq (first second : Script L W) : Script L W := follow false first fun _ => second

/-- `first && second` -/
def andIf (first second : Script L W) : Script L W :=
  follow true first fun code => if code = 0 then second else status code

/-- `first || second` -/
def orIf (first second : Script L W) : Script L W :=
  follow true first fun code => if code = 0 then status 0 else second

/-- `if condition; then yes; else no; fi` -/
def ifElse (condition yes no : Script L W) : Script L W :=
  follow true condition fun code => if code = 0 then yes else no

/-- `command || true` where the flag is set. -/
def guardedBy (guarded : Bool) (command : Script L W) : Script L W :=
  if guarded then orIf command pass else command

/-- `for` over the words of a list. -/
def forEach {α : Type} (items : List α) (body : α → Script L W) : Script L W :=
  match items with
  | [] => pass
  | item :: rest => seq (body item) (forEach rest body)

/-- `( body )`: the local part is restored and the status becomes that of a command. -/
def subshell (body : Script L W) : Script L W := fun errexit machine =>
  match body errexit machine with
  | none => none
  | some (flow, after) =>
      some (settle errexit flow.status, { locals := machine.locals, world := after.world })

/-- A function call: `return` ends it, `exit` leaves the shell. -/
def function (body : Script L W) : Script L W := fun errexit machine =>
  match body errexit machine with
  | none => none
  | some (.exit code, after) => some (.exit code, after)
  | some (flow, after) => some (settle errexit flow.status, after)

/-- Run `body` with `local` variables that are gone when it ends. -/
def withLocals (declare : L → L) (body : Script L W) : Script L W := fun errexit machine =>
  match body errexit { machine with locals := declare machine.locals } with
  | none => none
  | some (flow, after) => some (flow, { locals := machine.locals, world := after.world })

/-! Correctness, total where `total` is set. -/

/-- The script has a result, and it satisfies the postcondition. -/
def Runs (script : Script L W) (errexit : Bool) (machine : Machine L W)
    (post : Flow → Machine L W → Prop) : Prop :=
  ∃ flow after, script errexit machine = some (flow, after) ∧ post flow after

/-- The result of the script, if there is one, satisfies the postcondition. -/
@[irreducible] def Meets (total : Bool) (script : Script L W) (errexit : Bool) (machine : Machine L W)
    (post : Flow → Machine L W → Prop) : Prop :=
  match script errexit machine with
  | none => total = false
  | some (flow, after) => post flow after

/-- The postcondition of a command after which a list goes on. -/
def Continues (next : Status → Machine L W → Prop) (post : Flow → Machine L W → Prop) :
    Flow → Machine L W → Prop
  | .done code, after => next code after
  | flow, after => post flow after

variable {script first second condition yes no body : Script L W}
variable {total errexit tested : Bool} {machine : Machine L W} {next : Status → Script L W}
variable {post post' : Flow → Machine L W → Prop}

theorem runs_iff_meets : Runs script errexit machine post ↔ Meets true script errexit machine post := by
  unfold Runs Meets
  cases script errexit machine with
  | none => simp
  | some ending =>
      obtain ⟨flow, after⟩ := ending
      simp

theorem Meets.of_eq {flow : Flow} {after : Machine L W}
    (result : script errexit machine = some (flow, after)) (holds : post flow after) :
    Meets total script errexit machine post := by
  simpa only [Meets, result] using holds

theorem Meets.post_of_eq {flow : Flow} {after : Machine L W}
    (meets : Meets total script errexit machine post)
    (result : script errexit machine = some (flow, after)) : post flow after := by
  simpa only [Meets, result] using meets

theorem Meets.congr {script' : Script L W} (meets : Meets total script' errexit machine post)
    (same : script errexit machine = script' errexit machine) :
    Meets total script errexit machine post := by
  simpa only [Meets, same] using meets

/-- What holds with the result of one script holds with that of another that only changes it. -/
theorem Meets.map {script' : Script L W} {machine' : Machine L W} {errexit' : Bool}
    (change : Flow → Machine L W → Flow × Machine L W)
    (same : script' errexit' machine' =
      (script errexit machine).map fun ending => change ending.1 ending.2)
    (meets : Meets total script errexit machine fun flow after =>
      post (change flow after).1 (change flow after).2) :
    Meets total script' errexit' machine' post := by
  unfold Meets at meets ⊢
  rw [same]
  cases ran : script errexit machine with
  | none => simpa only [ran, Option.map_none] using meets
  | some ending => simpa only [ran, Option.map_some] using meets

theorem Meets.mono (meets : Meets total script errexit machine post)
    (weaker : ∀ flow after, post flow after → post' flow after) :
    Meets total script errexit machine post' := by
  unfold Meets at meets ⊢
  cases ran : script errexit machine with
  | none => simpa only [ran] using meets
  | some ending =>
      simp only [ran] at meets
      exact weaker _ _ meets

theorem meets_follow
    (run : Meets total first (errexit && !tested) machine
      (Continues (fun code after => Meets total (next code) errexit after post) post)) :
    Meets total (follow tested first next) errexit machine post := by
  unfold Meets follow at *
  cases ran : first (errexit && !tested) machine with
  | none => simpa only [ran] using run
  | some ending =>
      obtain ⟨flow, middle⟩ := ending
      simp only [ran] at run
      cases flow with
      | done code => exact run
      | ret code => exact run
      | exit code => exact run

theorem meets_status {code : Status} (holds : post (.done code) machine) :
    Meets total (status code) errexit machine post :=
  .of_eq rfl holds

theorem meets_returnWith {code : Status} (holds : post (.ret code) machine) :
    Meets total (returnWith code) errexit machine post :=
  .of_eq rfl holds

theorem meets_pass (holds : post (.done 0) machine) : Meets total pass errexit machine post :=
  meets_status holds

theorem meets_exitWith {code : Status} (holds : post (.exit code) machine) :
    Meets total (exitWith code) errexit machine post :=
  .of_eq rfl holds

theorem meets_simple {command : Machine L W → Status × Machine L W}
    (holds : post (settle errexit (command machine).1) (command machine).2) :
    Meets total (simple command) errexit machine post :=
  .of_eq rfl holds

theorem meets_setLocals {update : L → L}
    (holds : post (.done 0) { machine with locals := update machine.locals }) :
    Meets total (setLocals update) errexit machine post :=
  .of_eq rfl holds

theorem meets_seq
    (run : Meets total first errexit machine
      (Continues (fun _ after => Meets total second errexit after post) post)) :
    Meets total (seq first second) errexit machine post :=
  meets_follow (by simpa using run)

theorem meets_andIf
    (run : Meets total first false machine
      (Continues (fun code after =>
        if code = 0 then Meets total second errexit after post else post (.done code) after) post)) :
    Meets total (andIf first second) errexit machine post := by
  refine meets_follow ?_
  simp only [Bool.not_true, Bool.and_false]
  refine run.mono fun flow after holds => ?_
  cases flow with
  | done code =>
      by_cases success : code = 0
      · simpa [Continues, success] using holds
      · simp only [Continues, success, ↓reduceIte] at holds ⊢
        exact meets_status holds
  | ret code => exact holds
  | exit code => exact holds

theorem meets_orIf
    (run : Meets total first false machine
      (Continues (fun code after =>
        if code = 0 then post (.done 0) after else Meets total second errexit after post) post)) :
    Meets total (orIf first second) errexit machine post := by
  refine meets_follow ?_
  simp only [Bool.not_true, Bool.and_false]
  refine run.mono fun flow after holds => ?_
  cases flow with
  | done code =>
      by_cases success : code = 0
      · simp only [Continues, success, ↓reduceIte] at holds ⊢
        exact meets_status holds
      · simpa [Continues, success] using holds
  | ret code => exact holds
  | exit code => exact holds

theorem meets_ifElse
    (run : Meets total condition false machine
      (Continues (fun code after => if code = 0 then Meets total yes errexit after post
        else Meets total no errexit after post) post)) :
    Meets total (ifElse condition yes no) errexit machine post := by
  refine meets_follow ?_
  simp only [Bool.not_true, Bool.and_false]
  refine run.mono fun flow after holds => ?_
  cases flow with
  | done code => by_cases success : code = 0 <;> simpa [Continues, success] using holds
  | ret code => exact holds
  | exit code => exact holds

theorem meets_subshell
    (run : Meets total body errexit machine fun flow after =>
      post (settle errexit flow.status) { locals := machine.locals, world := after.world }) :
    Meets total (subshell body) errexit machine post := by
  refine Meets.map (fun flow after =>
    (settle errexit flow.status, { locals := machine.locals, world := after.world })) ?_ run
  unfold subshell
  cases body errexit machine <;> rfl

/-- What a caller sees of a function body that ended with `flow`. -/
def called (errexit : Bool) : Flow → Flow
  | .exit code => .exit code
  | flow => settle errexit flow.status

theorem called_cases (errexit : Bool) (flow : Flow) :
    ∃ code, called errexit flow = .done code ∨ called errexit flow = .exit code := by
  cases flow with
  | exit code => exact ⟨code, .inr rfl⟩
  | done code | ret code =>
      refine ⟨code, ?_⟩
      simp only [called, settle, Flow.status]
      by_cases leaves : (errexit && code != 0) = true <;> simp [leaves]

theorem meets_function
    (run : Meets total body errexit machine fun flow after => post (called errexit flow) after) :
    Meets total (function body) errexit machine post := by
  refine Meets.map (fun flow after => (called errexit flow, after)) ?_ run
  unfold function
  cases body errexit machine with
  | none => rfl
  | some ending =>
      obtain ⟨flow, after⟩ := ending
      cases flow <;> rfl

theorem meets_withLocals {declare : L → L}
    (run : Meets total body errexit { machine with locals := declare machine.locals }
      fun flow after => post flow { locals := machine.locals, world := after.world }) :
    Meets total (withLocals declare body) errexit machine post := by
  refine Meets.map (fun flow after => (flow, { locals := machine.locals, world := after.world })) ?_ run
  unfold withLocals
  cases body errexit { machine with locals := declare machine.locals } <;> rfl

/-! Fuel. -/

/-- Where the first script has a result, the second has the same one. -/
def Approx (script script' : Script L W) : Prop :=
  ∀ errexit machine result, script errexit machine = some result →
    script' errexit machine = some result

section Approx

variable {first' second' condition' yes' no' body' : Script L W} {next' : Status → Script L W}

theorem approx_refl (script : Script L W) : Approx script script := fun _ _ _ result => result

theorem approx_trans {script script' script'' : Script L W} (first : Approx script script')
    (second : Approx script' script'') : Approx script script'' :=
  fun errexit machine result ran => second errexit machine result (first errexit machine result ran)

/-- What holds of every result of the second script holds of every result of the first. -/
theorem Meets.of_approx {script script' : Script L W} (approx : Approx script script')
    (meets : Meets false script' errexit machine post) : Meets false script errexit machine post := by
  unfold Meets
  cases ran : script errexit machine with
  | none => rfl
  | some ending => exact meets.post_of_eq (approx errexit machine ending ran)

theorem approx_follow (firsts : Approx first first')
    (nexts : ∀ code, Approx (next code) (next' code)) :
    Approx (follow tested first next) (follow tested first' next') := by
  intro errexit machine result ran
  unfold follow at ran ⊢
  cases inner : first (errexit && !tested) machine with
  | none => simp [inner] at ran
  | some ending =>
      obtain ⟨flow, after⟩ := ending
      rw [firsts _ _ _ inner]
      simp only [inner] at ran
      cases flow with
      | done code => exact nexts code _ _ _ ran
      | ret code => exact ran
      | exit code => exact ran

theorem approx_seq (firsts : Approx first first') (seconds : Approx second second') :
    Approx (seq first second) (seq first' second') :=
  approx_follow firsts fun _ => seconds

theorem approx_andIf (firsts : Approx first first') (seconds : Approx second second') :
    Approx (andIf first second) (andIf first' second') := by
  refine approx_follow firsts fun code => ?_
  split
  · exact seconds
  · exact approx_refl _

theorem approx_orIf (firsts : Approx first first') (seconds : Approx second second') :
    Approx (orIf first second) (orIf first' second') := by
  refine approx_follow firsts fun code => ?_
  split
  · exact approx_refl _
  · exact seconds

theorem approx_ifElse (conditions : Approx condition condition') (yeses : Approx yes yes')
    (nos : Approx no no') : Approx (ifElse condition yes no) (ifElse condition' yes' no') := by
  refine approx_follow conditions fun code => ?_
  split
  · exact yeses
  · exact nos

theorem approx_guardedBy (guarded : Bool) (bodies : Approx body body') :
    Approx (guardedBy guarded body) (guardedBy guarded body') := by
  cases guarded with
  | false => exact bodies
  | true => exact approx_orIf bodies (approx_refl _)

theorem approx_forEach {α : Type} {bodyOf bodyOf' : α → Script L W} (items : List α)
    (bodies : ∀ item, Approx (bodyOf item) (bodyOf' item)) :
    Approx (forEach items bodyOf) (forEach items bodyOf') := by
  induction items with
  | nil => exact approx_refl _
  | cons item rest ih => exact approx_seq (bodies item) ih

theorem approx_subshell (bodies : Approx body body') :
    Approx (subshell body) (subshell body') := by
  intro errexit machine result ran
  unfold subshell at ran ⊢
  cases inner : body errexit machine with
  | none => simp [inner] at ran
  | some ending =>
      rw [bodies _ _ _ inner]
      simpa only [inner] using ran

theorem approx_function (bodies : Approx body body') :
    Approx (function body) (function body') := by
  intro errexit machine result ran
  unfold function at ran ⊢
  cases inner : body errexit machine with
  | none => simp [inner] at ran
  | some ending =>
      rw [bodies _ _ _ inner]
      simpa only [inner] using ran

theorem approx_withLocals (declare : L → L) (bodies : Approx body body') :
    Approx (withLocals declare body) (withLocals declare body') := by
  intro errexit machine result ran
  unfold withLocals at ran ⊢
  cases inner : body errexit { machine with locals := declare machine.locals } with
  | none => simp [inner] at ran
  | some ending =>
      rw [bodies _ _ _ inner]
      simpa only [inner] using ran

end Approx

end Script

end BotBrew.Shell
