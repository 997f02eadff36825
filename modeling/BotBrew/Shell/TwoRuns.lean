import BotBrew.Shell.Script

/-! Two runs of command lists: with errexit and without, and from different local parts. -/

set_option autoImplicit false

namespace BotBrew.Shell

namespace Script

variable {L W : Type} {first first' second second' condition yes no body body' : Script L W}
  {next next' : Status → Script L W} {tested : Bool}

/-! With errexit and without -/

/-- With errexit the script is left at a failure, or it runs as without. -/
def StopsOrSame (script : Script L W) : Prop :=
  ∀ machine, (∃ code after, code ≠ 0 ∧ script true machine = some (.exit code, after)) ∨
    script true machine = script false machine

theorem stopsOrSame_of_eq {script : Script L W} (same : ∀ machine, script true machine = script false machine) :
    StopsOrSame script := fun machine => .inr (same machine)

theorem stopsOrSame_simple (command : Machine L W → Status × Machine L W) : StopsOrSame (simple command) := by
  intro machine
  by_cases success : (command machine).1 = 0
  · refine .inr ?_
    simp only [simple, success, settle_zero]
  · exact .inl ⟨_, _, success, by rw [simple, settle_effective success]⟩

theorem stopsOrSame_follow (firsts : StopsOrSame first) (nexts : ∀ code, StopsOrSame (next code)) :
    StopsOrSame (follow tested first next) := by
  intro machine
  have start : (∃ code after, code ≠ 0 ∧ first (true && !tested) machine = some (.exit code, after)) ∨
      first (true && !tested) machine = first (false && !tested) machine := by
    cases tested with
    | false => exact firsts machine
    | true => exact .inr rfl
  rcases start with ⟨code, after, failed, left⟩ | same
  · exact .inl ⟨code, after, failed, by simp only [follow, left]⟩
  · simp only [follow, same]
    rcases first (false && !tested) machine with _ | ⟨flow, middle⟩
    · exact .inr rfl
    · cases flow with
      | done code => exact nexts code middle
      | ret code => exact .inr rfl
      | exit code => exact .inr rfl

theorem stopsOrSame_seq (firsts : StopsOrSame first) (seconds : StopsOrSame second) :
    StopsOrSame (seq first second) :=
  stopsOrSame_follow firsts fun _ => seconds

theorem stopsOrSame_status (code : Status) : StopsOrSame (status code : Script L W) := stopsOrSame_of_eq fun _ => rfl

theorem stopsOrSame_andIf (firsts : StopsOrSame first) (seconds : StopsOrSame second) :
    StopsOrSame (andIf first second) := by
  refine stopsOrSame_follow firsts fun code => ?_
  split
  · exact seconds
  · exact stopsOrSame_status code

theorem stopsOrSame_orIf (firsts : StopsOrSame first) (seconds : StopsOrSame second) :
    StopsOrSame (orIf first second) := by
  refine stopsOrSame_follow firsts fun code => ?_
  split
  · exact stopsOrSame_status 0
  · exact seconds

theorem stopsOrSame_ifElse (conditions : StopsOrSame condition) (yeses : StopsOrSame yes) (nos : StopsOrSame no) :
    StopsOrSame (ifElse condition yes no) := by
  refine stopsOrSame_follow conditions fun code => ?_
  split
  · exact yeses
  · exact nos

theorem stopsOrSame_guardedBy (guarded : Bool) (bodies : StopsOrSame body) : StopsOrSame (guardedBy guarded body) := by
  cases guarded with
  | false => exact bodies
  | true => exact stopsOrSame_orIf bodies (stopsOrSame_status 0)

theorem stopsOrSame_forEach {α : Type} {bodyOf : α → Script L W} (items : List α)
    (bodies : ∀ item, StopsOrSame (bodyOf item)) : StopsOrSame (forEach items bodyOf) := by
  induction items with
  | nil => exact stopsOrSame_status 0
  | cons item rest ih => exact stopsOrSame_seq (bodies item) ih

/-- A script that only changes where another one starts and what it leaves. -/
theorem stopsOrSame_map {script : Script L W} (bodies : StopsOrSame body) (start : Machine L W → Machine L W)
    (change : Machine L W → Flow → Machine L W → Machine L W)
    (runs : ∀ errexit machine, script errexit machine =
      (body errexit (start machine)).map fun ending => (ending.1, change machine ending.1 ending.2)) :
    StopsOrSame script := by
  intro machine
  rw [runs, runs]
  rcases bodies (start machine) with ⟨code, after, failed, left⟩ | same
  · exact .inl ⟨code, _, failed, by rw [left, Option.map_some]⟩
  · exact .inr (by rw [same])

theorem stopsOrSame_withLocals (declare : L → L) (bodies : StopsOrSame body) :
    StopsOrSame (withLocals declare body) := by
  refine stopsOrSame_map bodies (fun machine => { machine with locals := declare machine.locals })
    (fun machine _ after => { locals := machine.locals, world := after.world }) fun errexit machine => ?_
  unfold withLocals
  cases body errexit { machine with locals := declare machine.locals } <;> rfl

theorem stopsOrSame_subshell (bodies : StopsOrSame body) : StopsOrSame (subshell body) := by
  intro machine
  rcases bodies machine with ⟨code, after, failed, left⟩ | same
  · refine .inl ⟨code, ⟨machine.locals, after.world⟩, failed, ?_⟩
    simp only [subshell, left, Flow.status, settle_effective failed]
  · simp only [subshell, same]
    rcases body false machine with _ | ⟨flow, after⟩
    · exact .inr rfl
    · by_cases success : flow.status = 0
      · exact .inr (by simp only [success, settle_zero])
      · exact .inl ⟨flow.status, ⟨machine.locals, after.world⟩, success, by simp only [settle_effective success]⟩

theorem stopsOrSame_function (bodies : StopsOrSame body) : StopsOrSame (function body) := by
  intro machine
  have settled : ∀ (code : Status) (after : Machine L W),
      (∃ code' after', code' ≠ 0 ∧ some (settle true code, after) = some (Flow.exit code', after')) ∨
        some (settle true code, after) = some (settle false code, after) := by
    intro code after
    by_cases success : code = 0
    · exact .inr (by simp only [success, settle_zero])
    · exact .inl ⟨code, after, success, by rw [settle_effective success]⟩
  rcases bodies machine with ⟨code, after, failed, left⟩ | same
  · exact .inl ⟨code, after, failed, by simp only [function, left]⟩
  · simp only [function, same]
    rcases body false machine with _ | ⟨flow, after⟩
    · exact .inr rfl
    · cases flow with
      | done code => exact settled code after
      | ret code => exact settled code after
      | exit code => exact .inr rfl

/-! From different local parts -/

/-- The runs end alike, and in the same world, with local parts that are related. -/
def SameEnd (after : L → L → Prop) (run run' : Option (Flow × Machine L W)) : Prop :=
  (run = none ∧ run' = none) ∨
    ∃ flow left left' final, run = some (flow, ⟨left, final⟩) ∧ run' = some (flow, ⟨left', final⟩) ∧ after left left'

variable {middle after : L → L → Prop} {locals locals' left left' : L} {world final : W} {code : Status}

theorem SameEnd.of_done (related : after left left') :
    SameEnd after (some (.done code, ⟨left, final⟩)) (some (.done code, ⟨left', final⟩)) :=
  .inr ⟨.done code, left, left', final, rfl, rfl, related⟩

theorem SameEnd.mono {run run' : Option (Flow × Machine L W)} (ends : SameEnd middle run run')
    (weaker : ∀ left left', middle left left' → after left left') : SameEnd after run run' :=
  ends.imp_right fun ⟨flow, left, left', final, ran, ran', related⟩ =>
    ⟨flow, left, left', final, ran, ran', weaker left left' related⟩

/-- The second part has to end alike only where the first run has come. -/
theorem sameEnd_follow (firsts : SameEnd middle (first false ⟨locals, world⟩) (first' false ⟨locals', world⟩))
    (kept : ∀ left left', middle left left' → after left left')
    (nexts : ∀ code left left' final, first false ⟨locals, world⟩ = some (.done code, ⟨left, final⟩) →
      middle left left' → SameEnd after (next code false ⟨left, final⟩) (next' code false ⟨left', final⟩)) :
    SameEnd after (follow tested first next false ⟨locals, world⟩)
      (follow tested first' next' false ⟨locals', world⟩) := by
  rcases firsts with ⟨none, none'⟩ | ⟨flow, left, left', final, ran, ran', related⟩
  · exact .inl ⟨by simp only [follow, Bool.false_and, none], by simp only [follow, Bool.false_and, none']⟩
  · cases flow with
    | done code =>
        simp only [follow, Bool.false_and, ran, ran']
        exact nexts code left left' final ran related
    | ret code =>
        exact .inr ⟨.ret code, left, left', final, by simp only [follow, Bool.false_and, ran],
          by simp only [follow, Bool.false_and, ran'], kept left left' related⟩
    | exit code =>
        exact .inr ⟨.exit code, left, left', final, by simp only [follow, Bool.false_and, ran],
          by simp only [follow, Bool.false_and, ran'], kept left left' related⟩

theorem sameEnd_andIf (firsts : SameEnd after (first false ⟨locals, world⟩) (first' false ⟨locals', world⟩))
    (seconds : ∀ left left' final, first false ⟨locals, world⟩ = some (.done 0, ⟨left, final⟩) → after left left' →
      SameEnd after (second false ⟨left, final⟩) (second' false ⟨left', final⟩)) :
    SameEnd after (andIf first second false ⟨locals, world⟩) (andIf first' second' false ⟨locals', world⟩) := by
  refine sameEnd_follow firsts (fun _ _ related => related) fun code left left' final ran related => ?_
  split
  · next success =>
      subst success
      exact seconds left left' final ran related
  · exact .of_done related

theorem sameEnd_orIf (firsts : SameEnd after (first false ⟨locals, world⟩) (first' false ⟨locals', world⟩))
    (seconds : ∀ left left' final, after left left' →
      SameEnd after (second false ⟨left, final⟩) (second' false ⟨left', final⟩)) :
    SameEnd after (orIf first second false ⟨locals, world⟩) (orIf first' second' false ⟨locals', world⟩) := by
  refine sameEnd_follow firsts (fun _ _ related => related) fun code left left' final _ related => ?_
  split
  · exact .of_done related
  · exact seconds left left' final related

theorem sameEnd_subshell (bodies : SameEnd (fun _ _ => True) (body false ⟨locals, world⟩) (body' false ⟨locals', world⟩))
    (related : after locals locals') :
    SameEnd after (subshell body false ⟨locals, world⟩) (subshell body' false ⟨locals', world⟩) := by
  rcases bodies with ⟨none, none'⟩ | ⟨flow, left, left', final, ran, ran', _⟩
  · exact .inl ⟨by simp only [subshell, none], by simp only [subshell, none']⟩
  · exact .inr ⟨settle false flow.status, locals, locals', final, by simp only [subshell, ran],
      by simp only [subshell, ran'], related⟩

theorem sameEnd_withLocals {declare declare' : L → L}
    (bodies : SameEnd (fun _ _ => True) (body false ⟨declare locals, world⟩) (body' false ⟨declare' locals', world⟩))
    (related : after locals locals') :
    SameEnd after (withLocals declare body false ⟨locals, world⟩)
      (withLocals declare' body' false ⟨locals', world⟩) := by
  rcases bodies with ⟨none, none'⟩ | ⟨flow, left, left', final, ran, ran', _⟩
  · exact .inl ⟨by simp only [withLocals, none], by simp only [withLocals, none']⟩
  · exact .inr ⟨flow, locals, locals', final, by simp only [withLocals, ran],
      by simp only [withLocals, ran'], related⟩

theorem sameEnd_function (bodies : SameEnd after (body false ⟨locals, world⟩) (body' false ⟨locals', world⟩)) :
    SameEnd after (function body false ⟨locals, world⟩) (function body' false ⟨locals', world⟩) := by
  rcases bodies with ⟨none, none'⟩ | ⟨flow, left, left', final, ran, ran', related⟩
  · exact .inl ⟨by simp only [function, none], by simp only [function, none']⟩
  · refine .inr ⟨called false flow, left, left', final, ?_, ?_, related⟩
    · cases flow <;> simp only [function, ran, called]
    · cases flow <;> simp only [function, ran', called]

end Script

end BotBrew.Shell
