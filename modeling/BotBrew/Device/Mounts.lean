import BotBrew.Text.Lines

/-! `init.sh` and `fini.sh` of `botbrew-foundation.yml`: the mounts of the prefix. -/

set_option autoImplicit false

namespace BotBrew.Mounts

/-- A path of the prefix under `/data` at which the scripts make a directory. -/
inductive Place where
  | absent
  | directory
  | blocked
  deriving DecidableEq

/-- A path of the prefix under `/data` at which `init.sh` makes a link. -/
inductive Entry where
  | absent
  | directory
  | link (target : Text)
  | file
  deriving DecidableEq

/-- A tmpfs, with or without its two directories. -/
structure Tmpfs where
  tmp : Bool
  lock : Bool
  deriving DecidableEq

/-- A bind mount of `/data` over the prefix, and the tmpfs on its `run`. -/
structure Layer where
  run : Option Tmpfs
  /-- Ghost: the `init.sh` that made it reached its end, and since then no `fini.sh` has
  taken a part of it away and no other `init.sh` was stopped. -/
  whole : Bool
  deriving DecidableEq

/-- The mounts with the topmost first. -/
structure Device where
  rootWritable : Bool
  prefixDir : Bool
  layers : List Layer
  run : Place
  var : Place
  tmp : Entry
  varRun : Entry
  varLock : Entry
  deriving DecidableEq

/-- The commands of `init.sh` that change something, in their order. -/
inductive Command where
  | remountRootWritable
  | mkdirPrefix
  | bind
  | remountSuid
  | remountRootReadOnly
  | mkdirRun
  | removeOld
  | mountTmpfs
  | mkdirVar
  | chmodTmp
  | linkVarRun
  | linkTmp
  | linkVarLock
  deriving DecidableEq

/-- `mkdir -p` -/
def Place.mkdir : Place → Option Place
  | .blocked => none
  | _ => some .directory

/-- `ln -s target entry`. A link to a directory's name is made inside the directory. -/
def Entry.ln (target : Text) : Entry → Option Entry
  | .absent => some (.link target)
  | .directory => some .directory
  | _ => none

namespace Device

def top (change : Layer → Layer) (device : Device) : Device :=
  { device with layers := match device.layers with
      | [] => []
      | layer :: rest => change layer :: rest }

/-- `%(PREFIX)s/init.sh` is seen through a bind mount only. -/
def visible (device : Device) : Bool := device.layers ≠ []

end Device

section

variable (PREFIX : Text)

def runTarget : Text := PREFIX ++ "/run".toList

def tmpTarget : Text := PREFIX ++ "/run/tmp".toList

def lockTarget : Text := PREFIX ++ "/run/lock".toList

/-- A command that succeeds, or `none` where it cannot. -/
def Command.exec (device : Device) : Command → Option Device
  | .remountRootWritable => some { device with rootWritable := true }
  | .mkdirPrefix =>
      if device.prefixDir || device.visible then some device
      else if device.rootWritable then some { device with prefixDir := true }
      else none
  | .bind =>
      if device.prefixDir || device.visible then
        some { device with layers := { run := none, whole := false } :: device.layers }
      else none
  | .remountSuid => if device.visible then some device else none
  | .remountRootReadOnly => some { device with rootWritable := false }
  | .mkdirRun => do
      let run ← device.run.mkdir
      some { device with run := run }
  | .removeOld => some { device with tmp := .absent, varRun := .absent, varLock := .absent }
  | .mountTmpfs =>
      if device.visible && device.run == .directory then
        some (device.top fun layer => { layer with run := some { tmp := false, lock := false } })
      else none
  | .mkdirVar => do
      let var ← device.var.mkdir
      some (({ device with var := var }).top fun layer =>
        { layer with run := layer.run.map fun _ => { tmp := true, lock := true } })
  | .chmodTmp => some device
  | .linkVarRun => do
      let entry ← device.varRun.ln (runTarget PREFIX)
      if device.var = .directory then some { device with varRun := entry } else none
  | .linkTmp => do
      let entry ← device.tmp.ln (tmpTarget PREFIX)
      some { device with tmp := entry }
  | .linkVarLock => do
      let entry ← device.varLock.ln (lockTarget PREFIX)
      if device.var = .directory then some { device with varLock := entry } else none

/-- What a command that fails may still have done: a part of what it removes or makes. -/
def Command.spoil (progress : Nat → Bool) (device : Device) : Command → Device
  | .removeOld =>
      { device with
        tmp := if progress 0 then .absent else device.tmp
        varRun := if progress 1 then .absent else device.varRun
        varLock := if progress 2 then .absent else device.varLock }
  | .mkdirVar =>
      ({ device with var := if progress 0 then device.var.mkdir.getD device.var else device.var }).top
        fun layer => { layer with run := layer.run.map fun mounted : Tmpfs =>
          { tmp := mounted.tmp || progress 1, lock := mounted.lock || progress 2 } }
  | _ => device

def initCommands : List Command :=
  [.remountRootWritable, .mkdirPrefix, .bind, .remountSuid, .remountRootReadOnly, .mkdirRun,
    .removeOld, .mountTmpfs, .mkdirVar, .chmodTmp, .linkVarRun, .linkTmp, .linkVarLock]

abbrev Failures := Command → Option (Nat → Bool)

/-- `set -e`: the run stops at the first command that fails. -/
def runCommands (failures : Failures) (device : Device) : List Command → Device × Bool
  | [] => (device, true)
  | command :: rest =>
      match failures command with
      | some progress => (command.spoil progress device, false)
      | none =>
          match command.exec PREFIX device with
          | none => (device, false)
          | some next => runCommands failures next rest

/-- A run of `init.sh` stops and leaves nothing whole. -/
def Device.stopped (device : Device) : Device :=
  { device with layers := device.layers.map fun layer => { layer with whole := false } }

structure InitRun where
  lsFails : Bool
  failures : Failures

/-- `init.sh`: the device after it, and whether its status is 0. -/
def init (run : InitRun) (device : Device) : Device × Bool :=
  if device.visible && !run.lsFails then (device, true)
  else
    match runCommands PREFIX run.failures device initCommands with
    | (final, true) => (final.top fun layer => { layer with whole := true }, true)
    | (final, false) => (final.stopped, false)

end

/-- The commands of `fini.sh` that fail. -/
structure FiniRun where
  lsFails : Bool
  umountRunFails : Bool
  umountFails : Bool
  remountWritableFails : Bool
  rmdirFails : Bool
  remountReadOnlyFails : Bool
  deriving DecidableEq

/-- `umount -fl %(PREFIX)s/run || true` -/
def umountRun (run : FiniRun) (device : Device) : Device :=
  if run.umountRunFails then device else device.top fun layer => { layer with run := none }

/-- `umount -fl %(PREFIX)s || true`. A tmpfs on it goes with it. -/
def umountPrefix (run : FiniRun) (device : Device) : Device :=
  if run.umountFails then
    if run.umountRunFails then device else device.top fun layer => { layer with whole := false }
  else { device with layers := device.layers.tail }

/-- `mount -o remount,rw rootfs /` -/
def remountWritable (run : FiniRun) (device : Device) : Device :=
  if run.remountWritableFails then device else { device with rootWritable := true }

/-- `rmdir %(PREFIX)s || true` -/
def rmdirPrefix (run : FiniRun) (device : Device) : Device :=
  if run.rmdirFails || !device.rootWritable || device.visible then device
  else { device with prefixDir := false }

/-- `mount -o remount,ro rootfs /` -/
def remountReadOnly (run : FiniRun) (device : Device) : Device :=
  if run.remountReadOnlyFails then device else { device with rootWritable := false }

def finiCommands (run : FiniRun) (device : Device) : Device :=
  remountReadOnly run (rmdirPrefix run (remountWritable run
    (umountPrefix run (umountRun run device))))

/-- `fini.sh` -/
def fini (run : FiniRun) (device : Device) : Device :=
  if device.visible && !run.lsFails then
    let final := finiCommands run device
    if final.rootWritable then final.stopped else final
  else device

inductive Step where
  | init (run : InitRun)
  | fini (run : FiniRun)

def Step.run (PREFIX : Text) (device : Device) : Step → Device
  | .init run => (Mounts.init PREFIX run device).1
  | .fini run => Mounts.fini run device

def runAll (PREFIX : Text) (device : Device) (steps : List Step) : Device :=
  steps.foldl (Step.run PREFIX) device

end BotBrew.Mounts
