import BotBrew.Device.Mounts

/-! When `init.sh` may be run again. -/

set_option autoImplicit false

namespace BotBrew.Mounts

variable {PREFIX : Text}

structure Linked (PREFIX : Text) (device : Device) : Prop where
  tmp : device.tmp = .link (tmpTarget PREFIX)
  varRun : device.varRun = .link (runTarget PREFIX)
  varLock : device.varLock = .link (lockTarget PREFIX)

def Layer.Full (layer : Layer) : Prop := layer.run = some { tmp := true, lock := true }

/-- What `init.sh` sets up. -/
structure Ready (PREFIX : Text) (device : Device) : Prop where
  mounted : ∃ layer ∈ device.layers.head?, layer.Full
  linked : Linked PREFIX device
  readOnly : device.rootWritable = false

/-- A mount that is whole has its tmpfs, and where there is one, the links stand
and the root file system is read-only. -/
structure Sound (PREFIX : Text) (device : Device) : Prop where
  full : ∀ layer ∈ device.layers, layer.whole = true → layer.Full
  linked : (∃ layer ∈ device.layers, layer.whole = true) → Linked PREFIX device
  readOnly : (∃ layer ∈ device.layers, layer.whole = true) → device.rootWritable = false

/-- `init.sh` does not find its file through a mount that is not whole. -/
def Step.Careful (device : Device) : Step → Prop
  | .init run => run.lsFails = false → ∀ layer ∈ device.layers.head?, layer.whole = true
  | .fini _ => True

def Careful (PREFIX : Text) : Device → List Step → Prop
  | _, [] => True
  | device, step :: rest => step.Careful device ∧ Careful PREFIX (step.run PREFIX device) rest

theorem Sound.of_noWhole {device : Device} (none : ∀ layer ∈ device.layers, layer.whole = false) :
    Sound PREFIX device := by
  have never : ¬ ∃ layer ∈ device.layers, layer.whole = true := by
    rintro ⟨layer, member, whole⟩
    rw [none layer member] at whole
    cases whole
  constructor
  · intro layer member whole
    exact absurd ⟨layer, member, whole⟩ never
  · exact fun given => absurd given never
  · exact fun given => absurd given never

theorem Sound.stopped (device : Device) : Sound PREFIX device.stopped := by
  apply Sound.of_noWhole
  intro layer member
  obtain ⟨own, -, rfl⟩ := List.mem_map.mp member
  rfl

theorem runCommands_cons {failures : Failures} {device final : Device} {command : Command}
    {rest : List Command}
    (ran : runCommands PREFIX failures device (command :: rest) = (final, true)) :
    ∃ next, command.exec PREFIX device = some next ∧
      runCommands PREFIX failures next rest = (final, true) := by
  rw [runCommands] at ran
  cases failed : failures command with
  | some progress =>
      rw [failed] at ran
      cases ran
  | none =>
      rw [failed] at ran
      cases done : command.exec PREFIX device with
      | none =>
          rw [done] at ran
          cases ran
      | some next =>
          rw [done] at ran
          exact ⟨next, rfl, ran⟩

theorem exec_mkdirPrefix {device next : Device}
    (done : Command.mkdirPrefix.exec PREFIX device = some next) :
    next.layers = device.layers := by
  simp only [Command.exec] at done
  split_ifs at done <;> cases done <;> rfl

theorem exec_bind {device next : Device} (done : Command.bind.exec PREFIX device = some next) :
    next.layers = { run := none, whole := false } :: device.layers := by
  simp only [Command.exec] at done
  split_ifs at done
  cases done
  rfl

theorem exec_remountSuid {device next : Device}
    (done : Command.remountSuid.exec PREFIX device = some next) : next = device := by
  simp only [Command.exec] at done
  split_ifs at done
  cases done
  rfl

theorem exec_mkdirRun {device next : Device}
    (done : Command.mkdirRun.exec PREFIX device = some next) :
    ∃ run, next = { device with run := run } := by
  obtain ⟨run, -, same⟩ := Option.bind_eq_some_iff.mp done
  exact ⟨run, (Option.some.inj same).symm⟩

theorem exec_mountTmpfs {device next : Device}
    (done : Command.mountTmpfs.exec PREFIX device = some next) :
    next = device.top fun layer => { layer with run := some { tmp := false, lock := false } } := by
  simp only [Command.exec] at done
  split_ifs at done
  exact (Option.some.inj done).symm

theorem exec_mkdirVar {device next : Device}
    (done : Command.mkdirVar.exec PREFIX device = some next) :
    ∃ var, next = ({ device with var := var }).top fun layer =>
      { layer with run := layer.run.map fun _ => { tmp := true, lock := true } } := by
  obtain ⟨var, -, same⟩ := Option.bind_eq_some_iff.mp done
  exact ⟨var, (Option.some.inj same).symm⟩

theorem exec_linkVarRun {device next : Device} (absent : device.varRun = .absent)
    (done : Command.linkVarRun.exec PREFIX device = some next) :
    next = { device with varRun := .link (runTarget PREFIX) } := by
  simp only [Command.exec, absent, Entry.ln, Option.bind_eq_bind, Option.bind_some] at done
  split_ifs at done
  exact (Option.some.inj done).symm

theorem exec_linkTmp {device next : Device} (absent : device.tmp = .absent)
    (done : Command.linkTmp.exec PREFIX device = some next) :
    next = { device with tmp := .link (tmpTarget PREFIX) } := by
  simp only [Command.exec, absent, Entry.ln, Option.bind_eq_bind, Option.bind_some] at done
  exact (Option.some.inj done).symm

theorem exec_linkVarLock {device next : Device} (absent : device.varLock = .absent)
    (done : Command.linkVarLock.exec PREFIX device = some next) :
    next = { device with varLock := .link (lockTarget PREFIX) } := by
  simp only [Command.exec, absent, Entry.ln, Option.bind_eq_bind, Option.bind_some] at done
  split_ifs at done
  exact (Option.some.inj done).symm

theorem runCommands_ok {failures : Failures} {device final : Device}
    (ran : runCommands PREFIX failures device initCommands = (final, true)) :
    final.layers = { run := some { tmp := true, lock := true }, whole := false } :: device.layers ∧
      Linked PREFIX final ∧ final.rootWritable = false := by
  obtain ⟨writable, done, ran⟩ := runCommands_cons ran
  cases done
  obtain ⟨made, done, ran⟩ := runCommands_cons ran
  have madeLayers := exec_mkdirPrefix done
  obtain ⟨bound, done, ran⟩ := runCommands_cons ran
  have boundLayers := exec_bind done
  rw [madeLayers] at boundLayers
  obtain ⟨same, done, ran⟩ := runCommands_cons ran
  cases exec_remountSuid done
  obtain ⟨readOnly, done, ran⟩ := runCommands_cons ran
  cases done
  obtain ⟨running, done, ran⟩ := runCommands_cons ran
  obtain ⟨run, rfl⟩ := exec_mkdirRun done
  obtain ⟨cleared, done, ran⟩ := runCommands_cons ran
  cases done
  obtain ⟨mounted, done, ran⟩ := runCommands_cons ran
  cases exec_mountTmpfs done
  obtain ⟨filled, done, ran⟩ := runCommands_cons ran
  obtain ⟨var, rfl⟩ := exec_mkdirVar done
  obtain ⟨opened, done, ran⟩ := runCommands_cons ran
  cases done
  obtain ⟨linked, done, ran⟩ := runCommands_cons ran
  cases exec_linkVarRun rfl done
  obtain ⟨linked, done, ran⟩ := runCommands_cons ran
  cases exec_linkTmp rfl done
  obtain ⟨linked, done, ran⟩ := runCommands_cons ran
  cases exec_linkVarLock rfl done
  cases ran
  refine ⟨?_, ⟨rfl, rfl, rfl⟩, rfl⟩
  simp only [Device.top, boundLayers]
  rfl

theorem init_ran (PREFIX : Text) {run : InitRun} {device : Device}
    (late : (device.visible && !run.lsFails) = false) :
    (init PREFIX run device).2 = true ∧ Ready PREFIX (init PREFIX run device).1 ∧
        ((init PREFIX run device).1).layers =
          { run := some { tmp := true, lock := true }, whole := true } :: device.layers ∨
      (init PREFIX run device).2 = false ∧ ∃ last : Device, (init PREFIX run device).1 = last.stopped := by
  unfold init
  rw [late, if_neg Bool.false_ne_true]
  cases result : runCommands PREFIX run.failures device initCommands with
  | mk final ok =>
      cases ok with
      | false => exact Or.inr ⟨rfl, final, rfl⟩
      | true =>
          obtain ⟨layers, linked, readOnly⟩ := runCommands_ok result
          have top : (final.top fun layer => { layer with whole := true }).layers =
              { run := some { tmp := true, lock := true }, whole := true } :: device.layers := by
            simp only [Device.top, layers]
          have links : Linked PREFIX (final.top fun layer => { layer with whole := true }) :=
            ⟨linked.tmp, linked.varRun, linked.varLock⟩
          refine Or.inl ⟨rfl, ⟨?_, links, readOnly⟩, top⟩
          exact ⟨{ run := some { tmp := true, lock := true }, whole := true }, by rw [top]; rfl, rfl⟩

theorem init_sound {run : InitRun} {device : Device} (sound : Sound PREFIX device) :
    Sound PREFIX (init PREFIX run device).1 := by
  cases early : device.visible && !run.lsFails with
  | true =>
      unfold init
      rw [early, if_pos rfl]
      exact sound
  | false =>
      obtain ⟨-, ready, layers⟩ | ⟨-, last, same⟩ := init_ran PREFIX early
      · constructor
        · intro layer member whole
          rw [layers] at member
          obtain rfl | member := List.mem_cons.mp member
          · rfl
          · exact sound.full layer member whole
        · exact fun _ => ready.linked
        · exact fun _ => ready.readOnly
      · rw [same]
        exact Sound.stopped last

theorem root_commands (PREFIX : Text) (run : FiniRun) (device : Device) :
    (remountReadOnly run (rmdirPrefix run (remountWritable run device))).layers = device.layers ∧
      (Linked PREFIX device →
        Linked PREFIX (remountReadOnly run (rmdirPrefix run (remountWritable run device)))) := by
  unfold remountReadOnly rmdirPrefix remountWritable
  constructor
  · split_ifs <;> rfl
  · rintro ⟨tmp, varRun, varLock⟩
    split_ifs <;> exact ⟨tmp, varRun, varLock⟩

theorem fini_layers (run : FiniRun) (device : Device) :
    ∀ layer ∈ (finiCommands run device).layers, layer.whole = true → layer ∈ device.layers := by
  unfold finiCommands
  rw [(root_commands [] run _).1]
  unfold umountPrefix umountRun Device.top
  cases shape : device.layers with
  | nil =>
      intro layer member
      split_ifs at member <;> simp [shape] at member
  | cons first rest =>
      intro layer member whole
      split_ifs at member <;> simp only [shape, List.tail_cons] at member
      · exact member
      · obtain rfl | member := List.mem_cons.mp member
        · cases whole
        · exact List.mem_cons_of_mem _ member
      · exact List.mem_cons_of_mem _ member
      · exact List.mem_cons_of_mem _ member

theorem fini_linked (run : FiniRun) {device : Device} (linked : Linked PREFIX device) :
    Linked PREFIX (finiCommands run device) := by
  apply (root_commands PREFIX run _).2
  obtain ⟨tmp, varRun, varLock⟩ := linked
  unfold umountPrefix umountRun Device.top
  split_ifs <;> exact ⟨tmp, varRun, varLock⟩

theorem fini_sound {run : FiniRun} {device : Device} (sound : Sound PREFIX device) :
    Sound PREFIX (fini run device) := by
  unfold fini
  split
  · cases writable : (finiCommands run device).rootWritable with
    | true =>
        simp only [writable, if_true]
        exact Sound.stopped _
    | false =>
        simp only [writable, Bool.false_eq_true, if_false]
        have kept := fini_layers run device
        constructor
        · exact fun layer member whole => sound.full layer (kept layer member whole) whole
        · rintro ⟨layer, member, whole⟩
          exact fini_linked run (sound.linked ⟨layer, kept layer member whole, whole⟩)
        · exact fun _ => writable
  · exact sound

theorem step_sound {step : Step} {device : Device} (sound : Sound PREFIX device) :
    Sound PREFIX (step.run PREFIX device) := by
  cases step with
  | init run => exact init_sound sound
  | fini run => exact fini_sound sound

theorem runAll_sound {steps : List Step} {device : Device} (sound : Sound PREFIX device) :
    Sound PREFIX (runAll PREFIX device steps) := by
  induction steps generalizing device with
  | nil => exact sound
  | cons step rest ih => exact ih (step_sound sound)

theorem Careful.step {before after : List Step} {step : Step} {device : Device}
    (careful : Careful PREFIX device (before ++ step :: after)) :
    step.Careful (runAll PREFIX device before) := by
  induction before generalizing device with
  | nil => exact careful.1
  | cons first rest ih => exact ih careful.2

/-- In a careful run every `init.sh` that exits with status 0 has set everything up. -/
theorem init_ready (PREFIX : Text) (device : Device) (steps : List Step)
    (nothing : device.layers = []) (careful : Careful PREFIX device steps) :
    ∀ before run after, steps = before ++ .init run :: after →
      (init PREFIX run (runAll PREFIX device before)).2 = true →
        Ready PREFIX (init PREFIX run (runAll PREFIX device before)).1 := by
  rintro before run after rfl exited
  have here := careful.step
  have start : Sound PREFIX device := by
    apply Sound.of_noWhole
    rw [nothing]
    exact fun layer member => absurd member List.not_mem_nil
  have sound : Sound PREFIX (runAll PREFIX device before) := runAll_sound start
  cases early : (runAll PREFIX device before).visible && !run.lsFails with
  | false =>
      obtain ⟨-, ready, -⟩ | ⟨stopped, -⟩ := init_ran PREFIX early
      · exact ready
      · rw [exited] at stopped
        cases stopped
  | true =>
      obtain ⟨seen, listed⟩ := Bool.and_eq_true_iff.mp early
      unfold init
      rw [early, if_pos rfl]
      cases shape : (runAll PREFIX device before).layers with
      | nil =>
          unfold Device.visible at seen
          rw [shape] at seen
          cases seen
      | cons layer rest =>
          have member : layer ∈ (runAll PREFIX device before).layers := by
            rw [shape]
            exact List.mem_cons_self
          have whole := here (by simpa using listed) layer (by rw [shape]; rfl)
          refine ⟨⟨layer, by rw [shape]; rfl, sound.full layer member whole⟩, ?_, ?_⟩
          · exact sound.linked ⟨layer, member, whole⟩
          · exact sound.readOnly ⟨layer, member, whole⟩

def fresh : Device where
  rootWritable := false
  prefixDir := false
  layers := []
  run := .absent
  var := .directory
  tmp := .absent
  varRun := .absent
  varLock := .absent

def undisturbed : InitRun := { lsFails := false, failures := fun _ => none }

def withoutPrefix : InitRun where
  lsFails := false
  failures command := if command = .mkdirPrefix then some fun _ => false else none

def smooth : FiniRun where
  lsFails := false
  umountRunFails := false
  umountFails := false
  remountWritableFails := false
  rmdirFails := false
  remountReadOnlyFails := false

/-- Stopped before its bind mount, retried, taken down and set up again -/
def retries : List Step := [.init withoutPrefix, .init undisturbed, .fini smooth, .init undisturbed]

theorem retries_careful : Careful "/botbrew".toList fresh retries :=
  ⟨fun _ => by decide +kernel, fun _ => by decide +kernel, trivial, fun _ => by decide +kernel, trivial⟩

theorem init_ready_retried :
    (init "/botbrew".toList withoutPrefix fresh).2 = false ∧
      Ready "/botbrew".toList
        (init "/botbrew".toList undisturbed (runAll "/botbrew".toList fresh (retries.take 1))).1 ∧
      Ready "/botbrew".toList
        (init "/botbrew".toList undisturbed (runAll "/botbrew".toList fresh (retries.take 3))).1 := by
  have ready := init_ready "/botbrew".toList fresh retries rfl retries_careful
  refine ⟨by decide +kernel, ?_, ?_⟩
  · exact ready (retries.take 1) undisturbed [.fini smooth, .init undisturbed] rfl (by decide +kernel)
  · exact ready (retries.take 3) undisturbed [] rfl (by decide +kernel)

def withoutTmpfs : InitRun where
  lsFails := false
  failures command := if command = .mountTmpfs then some fun _ => false else none

/-- The run that is stopped leaves `init.sh` visible, and the next one exits with status 0. -/
theorem init_exits_halfway :
    (init "/botbrew".toList undisturbed (runAll "/botbrew".toList fresh [.init withoutTmpfs])).2 = true ∧
      ¬ Ready "/botbrew".toList
        (init "/botbrew".toList undisturbed (runAll "/botbrew".toList fresh [.init withoutTmpfs])).1 := by
  constructor
  · decide +kernel
  · intro ready
    obtain ⟨layer, member, full⟩ := ready.mounted
    have bare : ∀ layer ∈ (init "/botbrew".toList undisturbed
        (runAll "/botbrew".toList fresh [.init withoutTmpfs])).1.layers.head?, layer.run = none := by decide +kernel
    rw [Layer.Full, bare layer member] at full
    cases full

end BotBrew.Mounts
