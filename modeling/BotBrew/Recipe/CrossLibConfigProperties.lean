import BotBrew.Recipe.CrossLibConfig
import BotBrew.Text.Fields

/-! When fixed config scripts stay fixed, and that export trees are never written to. -/

set_option autoImplicit false

namespace BotBrew.CrossLibConfig

variable {importDir : ImportDirectory} {script : Script} {errexit : Bool}

@[simp] theorem World.write_file (world : World) (inode other : Inode) (file : File) :
    (world.write inode file).file other = if other = inode then file else world.file other :=
  Function.update_apply _ _ _ _

@[simp] theorem World.write_inode (world : World) (inode : Inode) (file : File) :
    (world.write inode file).inode = world.inode := rfl

@[simp] theorem World.write_next (world : World) (inode : Inode) (file : File) :
    (world.write inode file).next = world.next := rfl

@[simp] theorem World.bind_inode (world : World) (place other : Place) (inode : Option Inode) :
    (world.bind place inode).inode other = if other = place then inode else world.inode other :=
  Function.update_apply _ _ _ _

@[simp] theorem World.bind_file (world : World) (place : Place) (inode : Option Inode) :
    (world.bind place inode).file = world.file := rfl

@[simp] theorem World.bind_next (world : World) (place : Place) (inode : Option Inode) :
    (world.bind place inode).next = world.next := rfl

@[simp] theorem World.create_inode (world : World) (place other : Place) (file : File) :
    (world.create place file).inode other =
      if other = place then some world.next else world.inode other :=
  Function.update_apply _ _ _ _

@[simp] theorem World.create_file (world : World) (place : Place) (file : File) (inode : Inode) :
    (world.create place file).file inode = if inode = world.next then file else world.file inode :=
  Function.update_apply _ _ _ _

@[simp] theorem World.create_next (world : World) (place : Place) (file : File) :
    (world.create place file).next = world.next + 1 := rfl

/-- What writing the scratch file changes. -/
structure Scratch (before after : World) (inode : Inode) (content : Text) : Prop where
  temp : after.inode .temp = some inode
  content : (after.file inode).content = content
  names : ∀ place, place ≠ .temp → after.inode place = before.inode place
  files : ∀ other, other ≠ inode → after.file other = before.file other
  next : before.next ≤ after.next
  old : before.inode .temp = some inode ∨ before.next = inode ∧ inode < after.next

theorem truncate_some {world : World} {inode : Inode} (found : world.inode .temp = some inode)
    (content : Text) :
    truncate world content = world.write inode ⟨content, (world.file inode).executable⟩ := by
  unfold truncate
  rw [found]

theorem truncate_scratch (world : World) (content : Text) :
    ∃ inode, Scratch world (truncate world content) inode content := by
  cases found : world.inode .temp with
  | some inode =>
      rw [truncate_some found]
      refine ⟨inode, found, by simp, fun _ _ => rfl, ?_, le_rfl, .inl found⟩
      intro other different
      simp [different]
  | none =>
      have created : truncate world content = world.create .temp ⟨content, false⟩ := by
        unfold truncate
        rw [found]
      rw [created]
      refine ⟨world.next, by simp, by simp, ?_, ?_, Nat.le_succ _, .inr ⟨rfl, by simp⟩⟩
      · intro place different
        simp [different]
      · intro other different
        simp [different]

theorem Scratch.append {before after : World} {inode : Inode} {content : Text}
    (scratch : Scratch before after inode content) (more : Text) :
    Scratch before (append after more) inode (content ++ more) := by
  have appended : CrossLibConfig.append after more =
      after.write inode ⟨content ++ more, (after.file inode).executable⟩ := by
    unfold CrossLibConfig.append
    rw [scratch.temp]
    exact (truncate_some scratch.temp _).trans (by rw [scratch.content])
  rw [appended]
  refine ⟨scratch.temp, by simp, scratch.names, ?_, scratch.next, scratch.old⟩
  intro other different
  simp [different, scratch.files other different]

/-- What `mv temp ${FILE}` leaves, with the old script under the marker if there was one. -/
structure Installed (script : Script) (before after : World) (inode : Inode) (content : Text) :
    Prop where
  place : after.inode script.place = some inode
  temp : after.inode .temp = none
  marker : after.inode script.marker =
    (before.inode script.place).or (before.inode script.marker)
  names : ∀ place, place ≠ .temp → place ≠ script.place → place ≠ script.marker →
    after.inode place = before.inode place
  content : (after.file inode).content = content
  files : ∀ other, other ≠ inode → after.file other = before.file other
  next : before.next ≤ after.next
  old : before.inode .temp = some inode ∨ before.next = inode ∧ inode < after.next

/-- What `mv ${FILE} ${DIR}/.crosslibconfig.${NAME}` leaves when it is the last command. -/
structure Moved (script : Script) (before after : World) (inode : Inode) : Prop where
  place : after.inode script.place = none
  marker : after.inode script.marker = before.inode script.place
  temp : after.inode .temp = some inode
  names : ∀ place, place ≠ .temp → place ≠ script.place → place ≠ script.marker →
    after.inode place = before.inode place
  files : ∀ other, other ≠ inode → after.file other = before.file other
  next : before.next ≤ after.next
  old : before.inode .temp = some inode ∨ before.next = inode ∧ inode < after.next

def headerText (importDir : ImportDirectory) (script : Script) : Text :=
  "#!/bin/sh\n".toList ++ ("prefix=".toList ++ parent importDir script ++ ['\n'])

/-- What a call can leave once it has got to its commands. -/
inductive Outcome (importDir : ImportDirectory) (script : Script) (errexit : Bool) (limit : Nat)
    (world : World) : World × Option Bool → Prop
  | nothing : Outcome importDir script errexit limit world (world, none)
  | scratch {after : World} {inode : Inode} {content : Text} {status : Option Bool}
      (scratch : Scratch world after inode content) (failed : status ≠ some true) :
      Outcome importDir script errexit limit world (after, status)
  | moved {after : World} {original inode : Inode} (stopped : limit = 4)
      (present : world.inode script.place = some original) (moved : Moved script world after inode) :
      Outcome importDir script errexit limit world (after, none)
  | installed {after : World} {original inode : Inode} {status : Option Bool}
      (present : world.inode script.place = some original)
      (installed : Installed script world after inode
        (headerText importDir script ++ sed (world.file original).content)) :
      Outcome importDir script errexit limit world (after, status)
  | empty {after : World} {inode : Inode} {status : Option Bool}
      (absent : world.inode script.place = none) (goes : errexit = false) (late : 4 < limit)
      (installed : Installed script world after inode (headerText importDir script)) :
      Outcome importDir script errexit limit world (after, status)

theorem run_some {command : Command} {world next : World}
    (done : exec importDir script world command = some next) (limit : Nat) (rest : List Command)
    (status : Bool) :
    runCommands importDir script errexit (limit + 1) (command :: rest) status world =
      runCommands importDir script errexit limit rest true next := by
  rw [runCommands, done]

theorem run_none {command : Command} {world : World}
    (failed : exec importDir script world command = none) (limit : Nat) (rest : List Command)
    (status : Bool) :
    runCommands importDir script errexit (limit + 1) (command :: rest) status world =
      if errexit then (world, some false)
      else runCommands importDir script errexit limit rest false world := by
  rw [runCommands, failed]

theorem run_end (limit : Nat) (status : Bool) (world : World) :
    runCommands importDir script errexit limit [] status world = (world, some status) := by
  cases limit <;> rfl

theorem script_ne_marker : script.place ≠ script.marker := by
  intro same
  have paths := Place.imported.inj same
  have names := (List.append_inj' paths rfl).2
  have lengths := congrArg List.length (List.cons.inj names).1
  rw [List.length_append] at lengths
  have long : 0 < markerPrefix.length := by decide
  omega

theorem script_ne_temp : script.place ≠ .temp := by
  intro same
  cases same

theorem marker_ne_temp : script.marker ≠ .temp := by
  intro same
  cases same

theorem rename_some {world : World} {source target : Place} {inode : Inode}
    (found : world.inode source = some inode) :
    rename world source target =
      some ((world.bind target (some inode)).bind source none) := by
  unfold rename
  rw [found]

theorem exec_backup {before mid : World} {original inode : Inode} {content : Text}
    (scratch : Scratch before mid inode content)
    (present : before.inode script.place = some original) :
    ∃ after, exec importDir script mid .backup = some after ∧ Moved script before after inode ∧
      (after.file inode).content = content := by
  have found : mid.inode script.place = some original := by
    rw [scratch.names _ script_ne_temp, present]
  refine ⟨_, rename_some found, ?_, scratch.content⟩
  constructor
  · simp
  · simp [script_ne_marker.symm, present]
  · simp [script_ne_temp.symm, marker_ne_temp.symm, scratch.temp]
  · intro place temp own marker
    simp [own, marker, scratch.names place temp]
  · exact scratch.files
  · exact scratch.next
  · exact scratch.old

theorem exec_install {before mid : World} {original inode : Inode} {content : Text}
    (moved : Moved script before mid inode) (written : (mid.file inode).content = content)
    (present : before.inode script.place = some original) :
    ∃ after, exec importDir script mid .install = some after ∧
      Installed script before after inode content := by
  refine ⟨_, rename_some moved.temp, ?_⟩
  constructor
  · simp [script_ne_temp]
  · simp
  · simp [marker_ne_temp, script_ne_marker.symm, moved.marker, present]
  · intro place temp own marker
    simp [temp, own, moved.names place temp own marker]
  · exact written
  · exact moved.files
  · exact moved.next
  · exact moved.old

theorem exec_install_empty {before mid : World} {inode : Inode} {content : Text}
    (scratch : Scratch before mid inode content) (absent : before.inode script.place = none) :
    ∃ after, exec importDir script mid .install = some after ∧
      Installed script before after inode content := by
  refine ⟨_, rename_some scratch.temp, ?_⟩
  constructor
  · simp [script_ne_temp]
  · simp
  · simp [marker_ne_temp, script_ne_marker.symm, scratch.names _ marker_ne_temp, absent]
  · intro place temp own marker
    simp [temp, own, scratch.names place temp]
  · exact scratch.content
  · exact scratch.files
  · exact scratch.next
  · exact scratch.old

theorem exec_chmod {before mid : World} {inode : Inode} {content : Text}
    (installed : Installed script before mid inode content) :
    ∃ after, exec importDir script mid .chmod = some after ∧
      Installed script before after inode content := by
  have written : exec importDir script mid .chmod =
      some (mid.write inode ⟨(mid.file inode).content, true⟩) := by
    rw [exec, installed.place]
  refine ⟨_, written, ?_⟩
  constructor
  · exact installed.place
  · exact installed.temp
  · exact installed.marker
  · exact installed.names
  · simp [installed.content]
  · intro other different
    simp [different, installed.files other different]
  · exact installed.next
  · exact installed.old

/-- The scratch file has no other name, and free inodes have none. -/
structure Tidy (world : World) : Prop where
  used : ∀ place inode, world.inode place = some inode → inode < world.next
  alone : ∀ place inode, place ≠ .temp → world.inode .temp = some inode →
    world.inode place ≠ some inode

theorem Tidy.apart {before after : World} (tidy : Tidy before) {inode : Inode}
    (old : before.inode .temp = some inode ∨ before.next = inode ∧ inode < after.next)
    {place : Place} (elsewhere : place ≠ .temp) : before.inode place ≠ some inode := by
  obtain temp | ⟨fresh, _⟩ := old
  · exact tidy.alone place inode elsewhere temp
  · intro found
    have bound := tidy.used place inode found
    rw [fresh] at bound
    exact absurd bound (Nat.lt_irrefl _)

theorem fix_outcome {world : World} (tidy : Tidy world) (limit : Nat) (status : Bool) :
    Outcome importDir script errexit limit world
      (runCommands importDir script errexit limit commands status world) := by
  unfold commands
  cases limit with
  | zero => exact .nothing
  | succ limit =>
      obtain ⟨inode, header⟩ := truncate_scratch world "#!/bin/sh\n".toList
      rw [run_some rfl]
      cases limit with
      | zero => exact .scratch header (by simp)
      | succ limit =>
          have two := header.append ("prefix=".toList ++ parent importDir script ++ ['\n'])
          rw [run_some rfl]
          generalize append _ _ = mid at two ⊢
          have same : mid.inode script.place = world.inode script.place :=
            two.names _ script_ne_temp
          cases limit with
          | zero => exact .scratch two (by simp)
          | succ limit =>
              cases present : world.inode script.place with
              | some original =>
                  have body : exec importDir script mid .body =
                      some (append mid (sed (world.file original).content)) := by
                    have other : original ≠ inode := by
                      rintro rfl
                      exact tidy.apart two.old script_ne_temp present
                    rw [exec, same, present]
                    simp only [two.files original other]
                  rw [run_some body]
                  have three := two.append (sed (world.file original).content)
                  cases limit with
                  | zero => exact .scratch three (by simp)
                  | succ limit =>
                      obtain ⟨fourth, backup, moved, content⟩ := exec_backup three present
                      rw [run_some backup]
                      cases limit with
                      | zero => exact .moved rfl present moved
                      | succ limit =>
                          obtain ⟨fifth, install, installed⟩ := exec_install moved content present
                          rw [run_some install]
                          cases limit with
                          | zero => exact .installed present installed
                          | succ limit =>
                              obtain ⟨last, chmod, installed⟩ := exec_chmod installed
                              rw [run_some chmod, run_end]
                              exact .installed present installed
              | none =>
                  have body : exec importDir script mid .body = none := by
                    rw [exec, same, present]
                  have backup : exec importDir script mid .backup = none := by
                    rw [exec, rename, same, present]
                  rw [run_none body]
                  cases goes : errexit with
                  | true => exact .scratch two (by simp)
                  | false =>
                      simp only [Bool.false_eq_true, if_false]
                      cases limit with
                      | zero => exact .scratch two (by simp)
                      | succ limit =>
                          rw [run_none backup]
                          simp only [Bool.false_eq_true, if_false]
                          cases limit with
                          | zero => exact .scratch two (by simp)
                          | succ limit =>
                              obtain ⟨fifth, install, installed⟩ := exec_install_empty two present
                              rw [run_some install]
                              cases limit with
                              | zero => exact .empty present rfl (by omega) installed
                              | succ limit =>
                                  obtain ⟨last, chmod, installed⟩ := exec_chmod installed
                                  rw [run_some chmod, run_end]
                                  exact .empty present rfl (by omega) installed

/-- What every call keeps, however it is stopped. -/
structure Inv (start world : World) : Prop extends Tidy world where
  untouched : Untouched start world

theorem Inv.change {start before after : World} (inv : Inv start before) {inode : Inode}
    (old : before.inode .temp = some inode ∨ before.next = inode ∧ inode < after.next)
    (next : before.next ≤ after.next)
    (files : ∀ other, other ≠ inode → after.file other = before.file other)
    (names : ∀ place other, place ≠ .temp → after.inode place = some other →
      other = inode ∨ ∃ elsewhere, elsewhere ≠ Place.temp ∧ before.inode elsewhere = some other)
    (exports : ∀ item path, after.inode (.exported item path) = before.inode (.exported item path))
    (temp : after.inode .temp = none ∨ after.inode .temp = some inode ∧
      ∀ place, place ≠ .temp → after.inode place ≠ some inode) : Inv start after := by
  have bound : inode < after.next := by
    obtain found | ⟨_, bound⟩ := old
    · exact Nat.lt_of_lt_of_le (inv.used _ _ found) next
    · exact bound
  constructor
  · constructor
    · intro place other found
      by_cases scratch : place = .temp
      · subst scratch
        obtain none | ⟨some, _⟩ := temp
        · rw [none] at found
          cases found
        · rw [some] at found
          cases found
          exact bound
      · obtain rfl | ⟨elsewhere, _, before⟩ := names place other scratch found
        · exact bound
        · exact Nat.lt_of_lt_of_le (inv.used _ _ before) next
    · intro place other elsewhere found
      obtain none | ⟨some, alone⟩ := temp
      · rw [none] at found
        cases found
      · rw [some] at found
        cases found
        exact alone place elsewhere
  · constructor
    · intro item path
      rw [exports, inv.untouched.names]
    · intro item path original found
      have other : original ≠ inode := by
        rintro rfl
        have unnamed := inv.toTidy.apart old (show Place.exported item path ≠ .temp by simp)
        rw [inv.untouched.names] at unnamed
        exact unnamed found
      rw [files original other, inv.untouched.files item path original found]

theorem Inv.outcome {start world : World} (inv : Inv start world) {limit : Nat}
    {result : World × Option Bool}
    (outcome : Outcome importDir script errexit limit world result) : Inv start result.1 := by
  have apart := fun {inode : Inode} {after : World}
      (old : world.inode .temp = some inode ∨ world.next = inode ∧ inode < after.next)
      (place : Place) (elsewhere : place ≠ .temp) => inv.toTidy.apart old elsewhere
  have installed : ∀ {after : World} {inode : Inode} {content : Text},
      Installed script world after inode content → Inv start after := by
    intro after inode content installed
    apply inv.change installed.old installed.next installed.files
    · intro place other temp found
      by_cases own : place = script.place
      · rw [own, installed.place] at found
        exact .inl (Option.some.inj found).symm
      · by_cases marker : place = script.marker
        · rw [marker, installed.marker] at found
          obtain before | ⟨_, before⟩ := Option.or_eq_some_iff.mp found
          · exact .inr ⟨_, script_ne_temp, before⟩
          · exact .inr ⟨_, marker_ne_temp, before⟩
        · rw [installed.names place temp own marker] at found
          exact .inr ⟨place, temp, found⟩
    · intro item path
      exact installed.names _ (by simp) (by simp [Script.place]) (by simp [Script.marker])
    · exact .inl installed.temp
  cases outcome with
  | nothing => exact inv
  | scratch scratch failed =>
      apply inv.change scratch.old scratch.next scratch.files
      · intro place other temp found
        rw [scratch.names place temp] at found
        exact .inr ⟨place, temp, found⟩
      · exact fun item path => scratch.names _ (by simp)
      · apply Or.inr
        refine ⟨scratch.temp, fun place temp => ?_⟩
        rw [scratch.names place temp]
        exact apart scratch.old place temp
  | moved stopped present moved =>
      apply inv.change moved.old moved.next moved.files
      · intro place other temp found
        by_cases own : place = script.place
        · rw [own, moved.place] at found
          cases found
        · by_cases marker : place = script.marker
          · rw [marker, moved.marker] at found
            exact .inr ⟨_, script_ne_temp, found⟩
          · rw [moved.names place temp own marker] at found
            exact .inr ⟨place, temp, found⟩
      · intro item path
        exact moved.names _ (by simp) (by simp [Script.place]) (by simp [Script.marker])
      · apply Or.inr
        refine ⟨moved.temp, fun place temp => ?_⟩
        by_cases own : place = script.place
        · rw [own, moved.place]
          simp
        · by_cases marker : place = script.marker
          · rw [marker, moved.marker]
            exact apart moved.old _ script_ne_temp
          · rw [moved.names place temp own marker]
            exact apart moved.old place temp
  | installed present given => exact installed given
  | empty absent goes late given => exact installed given

theorem Inv.fix {start world : World} (inv : Inv start world) (limit : Nat) :
    Inv start (botbrew_fix_crosslibconfig importDir script errexit limit world).1 := by
  unfold botbrew_fix_crosslibconfig
  split
  · exact inv
  · split
    · exact inv.outcome (fix_outcome inv.toTidy limit true)
    · exact inv

theorem Inv.link {start world : World} (inv : Inv start world) (item : Text) (path : Path) :
    Inv start (link item world path) := by
  unfold CrossLibConfig.link
  cases found : world.inode (.exported item path) with
  | none => exact inv
  | some inode =>
      simp only
      split
      · constructor
        · constructor
          · intro place other bound
            simp only [World.bind_inode] at bound
            split at bound
            · cases bound
              exact inv.used _ _ found
            · exact inv.used place other bound
          · intro place other elsewhere temp
            simp only [World.bind_inode] at temp ⊢
            rw [if_neg (by simp)] at temp
            split
            · intro same
              cases same
              exact inv.alone _ _ (by simp) temp found
            · exact inv.alone place other elsewhere temp
        · exact ⟨fun item path => by simp [inv.untouched.names], inv.untouched.files⟩
      · exact inv

theorem Inv.touch {start world : World} (inv : Inv start world) {path : Path} :
    Inv start (touch world (.imported path)) := by
  unfold CrossLibConfig.touch
  have free : ∀ place, world.inode place ≠ some world.next :=
    fun place found => Nat.lt_irrefl _ (inv.used place _ found)
  constructor
  · constructor
    · intro place other found
      simp only [World.create_inode] at found
      split at found
      · cases found
        exact Nat.lt_succ_self _
      · exact Nat.lt_succ_of_lt (inv.used place other found)
    · intro place other elsewhere temp
      simp only [World.create_inode] at temp ⊢
      rw [if_neg (by simp)] at temp
      split
      · intro same
        cases same
        exact free _ temp
      · exact inv.alone place other elsewhere temp
  · constructor
    · intro item path
      simp [inv.untouched.names]
    · intro item path original found
      have other : original ≠ world.next := by
        rintro rfl
        apply free (.exported item path)
        rw [inv.untouched.names, found]
      simp [other, inv.untouched.files item path original found]

theorem Inv.links {start world : World} (inv : Inv start world) (item : Text) (files : List Path) :
    Inv start (files.foldl (CrossLibConfig.link item) world) := by
  induction files generalizing world with
  | nil => exact inv
  | cons path rest ih => exact ih (inv.link item path)

theorem Inv.importAll {start world : World} (inv : Inv start world) (items : List Copying) :
    Inv start (botbrew_import world items) := by
  induction items generalizing world with
  | nil => exact inv
  | cons copying rest ih =>
      have item : Inv start (importItem world copying).1 := by
        unfold importItem
        split
        · exact inv
        · have links := inv.links copying.item copying.files
          split
          · exact links.touch
          · exact links
      unfold botbrew_import
      split
      · next next result => exact ih (by rw [result] at item; exact item)
      · next next result => rw [result] at item; exact item

theorem Inv.call {start world : World} (inv : Inv start world) (made : Call) :
    Inv start (call importDir world made).1 := by
  cases made with
  | importAll items => exact inv.importAll items
  | fix script errexit limit => exact inv.fix limit

theorem Inv.start {start : World} (initial : Initial start) : Inv start start where
  used := initial.used
  alone place inode _ found := by
    rw [initial.temp] at found
    cases found
  untouched := ⟨fun _ _ => rfl, fun _ _ _ _ => rfl⟩

theorem Inv.reaches {start world : World} {allowed : World → Call → Prop}
    (initial : Initial start) (reaches : Reaches importDir allowed start world) :
    Inv start world := by
  induction reaches with
  | start => exact Inv.start initial
  | step before made may ih => exact ih.call made

theorem lines_cons {line : Text} (free : '\n' ∉ line) (text : Text) :
    lines (line ++ '\n' :: text) = line :: lines text := by
  have other : ∀ char ∈ line, (char == '\n') = false :=
    fun char member => beq_false_of_ne fun newline => free (newline ▸ member)
  unfold lines
  rw [List.splitOnP_append_cons line text rfl, List.splitOnP_eq_singleton other]
  rfl

theorem lines_sed (content : Text) : lines (sed content) = (lines content).map blank := by
  have free : ∀ line ∈ (lines content).map blank, '\n' ∉ line := by
    intro line member newline
    obtain ⟨source, listed, rfl⟩ := List.mem_map.mp member
    unfold blank at newline
    split at newline
    · cases newline
    · have other := Text.splitOnP_free listed newline
      simp at other
  have given : (lines content).map blank ≠ [] := by
    simp [lines, List.splitOnP_ne_nil]
  exact List.splitOn_intercalate '\n' free given

theorem newline_notMem_word {text : Text} (word : isWord text = true) : '\n' ∉ text := by
  intro member
  have separators : text.any Shell.isSeparator = true := List.any_eq_true.mpr ⟨'\n', member, rfl⟩
  simp [isWord, separators] at word

theorem newline_notMem_parent (importDir : ImportDirectory) (script : Script) :
    '\n' ∉ parent importDir script := by
  unfold parent
  intro member
  obtain inside | inside := List.mem_append.mp member
  · exact newline_notMem_word importDir.plain inside
  · obtain ⟨part, listed, inside⟩ := List.mem_flatMap.mp inside
    have own : part ∈ script.directory ++ [script.name] :=
      List.mem_append_left _ ((List.dropLast_subset _) listed)
    obtain newline | inside := List.mem_cons.mp inside
    · revert newline
      decide
    · exact newline_notMem_word (script.plain part own).1 inside

theorem lines_installed (importDir : ImportDirectory) (script : Script) (content : Text) :
    lines (headerText importDir script ++ sed content) =
      "#!/bin/sh".toList :: ("prefix=".toList ++ parent importDir script) ::
        (lines content).map blank := by
  have shape : headerText importDir script ++ sed content =
      "#!/bin/sh".toList ++ '\n' :: (("prefix=".toList ++ parent importDir script) ++
        '\n' :: sed content) := by
    unfold headerText
    simp only [List.append_assoc, List.singleton_append]
    rfl
  have free : '\n' ∉ "prefix=".toList ++ parent importDir script := by
    intro member
    obtain inside | inside := List.mem_append.mp member
    · revert inside
      decide
    · exact newline_notMem_parent importDir script inside
  have header : '\n' ∉ "#!/bin/sh".toList := by decide
  rw [shape, lines_cons header, lines_cons free, lines_sed]

/-- A script without a marker is an exported one, and one with a marker is fixed. -/
structure Good (importDir : ImportDirectory) (start world : World) : Prop where
  plain : ∀ directory name inode, directory ≠ [] → ¬ markerPrefix <+: name →
    world.inode (.imported (markerPath directory name)) = none →
      world.inode (.imported (directory ++ [name])) = some inode →
        ∃ item, world.inode (.exported item (directory ++ [name])) = some inode
  fixed : ∀ script : Script, script.directory ≠ [] → ¬ markerPrefix <+: script.name →
    (world.inode script.marker).isSome → Fixed importDir start script world

theorem markerPath_inj {directory other : Path} {name name' : Text}
    (same : markerPath directory name = markerPath other name') :
    directory = other ∧ name = name' := by
  obtain ⟨directories, names⟩ := List.append_inj' same rfl
  exact ⟨directories, List.append_cancel_left (List.cons.inj names).1⟩

theorem markerPath_ne {directory other : Path} {name name' : Text}
    (plain : ¬ markerPrefix <+: name') : markerPath directory name ≠ other ++ [name'] := by
  intro same
  have names := (List.append_inj' same rfl).2
  apply plain
  rw [← (List.cons.inj names).1]
  exact List.prefix_append _ _

theorem place_eq_of_marker {script other : Script} (same : script.marker = other.marker) :
    script.place = other.place := by
  obtain ⟨directories, names⟩ := markerPath_inj (Place.imported.inj same)
  unfold Script.place
  rw [directories, names]

theorem marker_eq_of_place {script other : Script} (same : script.place = other.place) :
    script.marker = other.marker := by
  obtain ⟨directories, names⟩ := List.append_inj' (Place.imported.inj same) rfl
  unfold Script.marker
  rw [directories, (List.cons.inj names).1]

theorem Fixed.kept {start before after : World} {script : Script}
    (fixed : Fixed importDir start script before)
    (place : after.inode script.place = before.inode script.place)
    (file : ∀ inode, before.inode script.place = some inode → after.file inode = before.file inode) :
    Fixed importDir start script after := by
  obtain ⟨item, original, inode, exported, own, content⟩ := fixed
  refine ⟨item, original, inode, exported, by rw [place, own], ?_⟩
  rw [file inode own]
  exact content

theorem Good.scratch {start before after : World} (inv : Inv start before)
    (good : Good importDir start before) {inode : Inode} {content : Text}
    (scratch : Scratch before after inode content) : Good importDir start after := by
  constructor
  · intro directory name other inside plain marker found
    rw [scratch.names _ (by simp)] at marker found
    obtain ⟨item, exported⟩ := good.plain directory name other inside plain marker found
    exact ⟨item, by rw [scratch.names _ (by simp), exported]⟩
  · intro script inside plain marker
    rw [scratch.names _ marker_ne_temp] at marker
    apply (good.fixed script inside plain marker).kept
    · exact scratch.names _ script_ne_temp
    · intro other found
      apply scratch.files
      rintro rfl
      exact inv.toTidy.apart scratch.old script_ne_temp found

theorem Good.installed {start before after : World} (inv : Inv start before)
    (good : Good importDir start before) {script : Script} (inside : script.directory ≠ [])
    (plain : ¬ markerPrefix <+: script.name) (fresh : before.inode script.marker = none)
    {original inode : Inode} (present : before.inode script.place = some original)
    (installed : Installed script before after inode
      (headerText importDir script ++ sed (before.file original).content)) :
    Good importDir start after ∧ Fixed importDir start script after := by
  obtain ⟨item, exported⟩ := good.plain _ _ original inside plain fresh present
  have atStart : start.inode (.exported item (script.directory ++ [script.name])) = some original := by
    rw [← inv.untouched.names, exported]
  have own : Fixed importDir start script after := by
    refine ⟨item, original, inode, atStart, installed.place, ?_⟩
    rw [installed.content, lines_installed, inv.untouched.files item _ original atStart]
  have marker : after.inode script.marker = some original := by
    rw [installed.marker, present]
    rfl
  refine ⟨?_, own⟩
  constructor
  · intro directory name other inside' plain' missing found
    have notMarker : Place.imported (directory ++ [name]) ≠ script.marker :=
      fun same => markerPath_ne plain' (Place.imported.inj same).symm
    have notScript : Place.imported (directory ++ [name]) ≠ script.place := by
      intro same
      obtain ⟨directories, names⟩ := List.append_inj' (Place.imported.inj same) rfl
      rw [directories, (List.cons.inj names).1] at missing
      rw [show Place.imported (markerPath script.directory script.name) = script.marker from rfl,
        marker] at missing
      cases missing
    have notScript' : Place.imported (markerPath directory name) ≠ script.place :=
      fun same => markerPath_ne plain (Place.imported.inj same)
    have notMarker' : Place.imported (markerPath directory name) ≠ script.marker := by
      intro same
      rw [same, marker] at missing
      cases missing
    rw [installed.names _ (by simp) notScript notMarker] at found
    rw [installed.names _ (by simp) notScript' notMarker'] at missing
    obtain ⟨item, exported⟩ := good.plain directory name other inside' plain' missing found
    refine ⟨item, ?_⟩
    rw [installed.names _ (by simp) (by simp [Script.place]) (by simp [Script.marker]), exported]
  · intro other inside' plain' marked
    by_cases same : other.marker = script.marker
    · have places := place_eq_of_marker same
      obtain ⟨directories, names⟩ := markerPath_inj (Place.imported.inj same)
      obtain ⟨item, original, inode, exported, found, content⟩ := own
      refine ⟨item, original, inode, ?_, by rw [places, found], ?_⟩
      · rw [directories, names, exported]
      · unfold parent at content ⊢
        rw [directories]
        exact content
    · have notPlace : other.place ≠ script.place := fun equal => same (marker_eq_of_place equal)
      have notMarker : other.place ≠ script.marker :=
        fun equal => markerPath_ne plain' (Place.imported.inj equal).symm
      have markerPlace : other.marker ≠ script.place :=
        fun equal => markerPath_ne plain (Place.imported.inj equal)
      rw [installed.names _ marker_ne_temp markerPlace same] at marked
      apply (good.fixed other inside' plain' marked).kept
      · exact installed.names _ script_ne_temp notPlace notMarker
      · intro inode' found
        apply installed.files
        rintro rfl
        exact inv.toTidy.apart installed.old script_ne_temp found

/-- The calls that `Careful` allows keep every script plain or fixed; one that succeeds
leaves its script fixed. -/
theorem Good.fix {start world : World} (inv : Inv start world) (good : Good importDir start world)
    {script : Script} {errexit : Bool} {limit : Nat}
    (careful : Careful world (.fix script errexit limit)) :
    Good importDir start (botbrew_fix_crosslibconfig importDir script errexit limit world).1 ∧
      (script.directory.getLast? = some "bin".toList →
        (botbrew_fix_crosslibconfig importDir script errexit limit world).2 = some true →
          Fixed importDir start script
            (botbrew_fix_crosslibconfig importDir script errexit limit world).1) := by
  cases careful with
  | fix name between missing =>
      have nonempty : script.directory.getLast? = some "bin".toList → script.directory ≠ [] := by
        intro bin empty
        rw [empty] at bin
        cases bin
      unfold botbrew_fix_crosslibconfig
      cases marked : world.inode script.marker with
      | some inode =>
          refine ⟨good, fun bin _ => good.fixed script (nonempty bin) name ?_⟩
          rw [marked]
          rfl
      | none =>
          simp only [Option.isSome_none, Bool.false_eq_true, if_false]
          by_cases bin : script.directory.getLast? = some "bin".toList
          · rw [if_pos bin]
            have begins : Begins world script := ⟨marked, bin⟩
            have outcome : Outcome importDir script errexit limit world _ :=
              fix_outcome inv.toTidy limit true
            generalize runCommands importDir script errexit limit commands true world = result
              at outcome ⊢
            cases outcome with
            | nothing => exact ⟨good, fun _ impossible => by cases impossible⟩
            | scratch scratch failed =>
                exact ⟨good.scratch inv scratch, fun _ success => absurd success failed⟩
            | moved stopped present moved =>
                refine absurd stopped (between begins ?_)
                rw [present]
                rfl
            | installed present installed =>
                obtain ⟨good, fixed⟩ :=
                  good.installed inv (nonempty bin) name marked present installed
                exact ⟨good, fun _ _ => fixed⟩
            | empty absent goes late installed =>
                obtain stops | early := missing begins absent
                · rw [goes] at stops
                  cases stops
                · exact absurd early (Nat.not_le_of_lt late)
          · rw [if_neg bin]
            exact ⟨good, fun _ impossible => by cases impossible⟩

def Markers (before after : World) : Prop :=
  ∀ directory name, after.inode (.imported (markerPath directory name)) =
    before.inode (.imported (markerPath directory name))

theorem Good.link {start world : World} (good : Good importDir start world)
    (item : Text) {path : Path} (free : ∀ directory name, directory ++ [name] = path →
      ¬ markerPrefix <+: name ∧ world.inode (.imported (markerPath directory name)) = none) :
    Good importDir start (link item world path) ∧ Markers world (link item world path) := by
  unfold CrossLibConfig.link
  cases found : world.inode (.exported item path) with
  | none => exact ⟨good, fun _ _ => rfl⟩
  | some inode =>
      simp only
      split
      · have markers : ∀ directory name, markerPath directory name ≠ path :=
          fun directory name same => (free _ _ same).1 (List.prefix_append _ _)
        constructor
        · constructor
          · intro directory name other inside plain missing bound
            simp only [World.bind_inode, Place.imported.injEq, markers, if_false] at missing
            simp only [World.bind_inode, Place.imported.injEq] at bound
            split at bound
            · next same =>
                cases bound
                refine ⟨item, ?_⟩
                simp [same, found]
            · obtain ⟨item, exported⟩ := good.plain directory name other inside plain missing bound
              exact ⟨item, by simp [exported]⟩
          · intro script inside plain marked
            have notMarker : script.marker ≠ .imported path :=
              fun same => markers _ _ (Place.imported.inj same)
            rw [World.bind_inode, if_neg notMarker] at marked
            have notPlace : script.place ≠ .imported path := by
              intro same
              have missing : world.inode script.marker = none :=
                (free _ _ (Place.imported.inj same)).2
              rw [missing] at marked
              cases marked
            apply (good.fixed script inside plain marked).kept
            · rw [World.bind_inode, if_neg notPlace]
            · exact fun _ _ => rfl
        · intro directory name
          simp [markers]
      · exact ⟨good, fun _ _ => rfl⟩

theorem Good.links {start world : World} (inv : Inv start world) (good : Good importDir start world)
    (item : Text) {files : List Path} (free : ∀ directory name, directory ++ [name] ∈ files →
      ¬ markerPrefix <+: name ∧ world.inode (.imported (markerPath directory name)) = none) :
    Good importDir start (files.foldl (CrossLibConfig.link item) world) ∧
      Markers world (files.foldl (CrossLibConfig.link item) world) := by
  induction files generalizing world with
  | nil => exact ⟨good, fun _ _ => rfl⟩
  | cons path rest ih =>
      obtain ⟨good, markers⟩ := good.link item fun directory name same =>
        free directory name (same ▸ List.mem_cons_self)
      obtain ⟨good, others⟩ := ih (inv.link item path) good fun directory name member => by
        rw [markers]
        exact free directory name (List.mem_cons_of_mem _ member)
      exact ⟨good, fun directory name => (others directory name).trans (markers directory name)⟩

theorem Good.touch {start world : World} (inv : Inv start world) (good : Good importDir start world)
    (item : Text) :
    Good importDir start (touch world (importMarker item)) ∧
      Markers world (touch world (importMarker item)) := by
  unfold CrossLibConfig.touch importMarker
  have apart : ∀ directory name,
      markerPath directory name ≠ [importPrefix ++ item] := by
    intro directory name same
    have names := (List.append_inj' (show directory ++ [_] = [] ++ [_] from same) rfl).2
    have chars := congrArg (List.take 2) (List.cons.inj names).1
    rw [List.take_append_of_le_length (by decide), List.take_append_of_le_length (by decide)] at chars
    revert chars
    decide
  have deep : ∀ (directory : Path) (name : Text), directory ≠ [] →
      directory ++ [name] ≠ [importPrefix ++ item] := by
    intro directory name inside same
    exact inside (List.append_inj' (show directory ++ [_] = [] ++ [_] from same) rfl).1
  constructor
  · constructor
    · intro directory name other inside plain missing found
      simp only [World.create_inode, Place.imported.injEq, apart, if_false] at missing
      simp only [World.create_inode, Place.imported.injEq, deep directory name inside,
        if_false] at found
      obtain ⟨item, exported⟩ := good.plain directory name other inside plain missing found
      exact ⟨item, by simp [exported]⟩
    · intro script inside plain marked
      have notMarker : script.marker ≠ .imported [importPrefix ++ item] :=
        fun same => apart _ _ (Place.imported.inj same)
      have notPlace : script.place ≠ .imported [importPrefix ++ item] :=
        fun same => deep _ _ inside (Place.imported.inj same)
      rw [World.create_inode, if_neg notMarker] at marked
      apply (good.fixed script inside plain marked).kept
      · rw [World.create_inode, if_neg notPlace]
      · intro inode found
        have used := inv.used _ _ found
        rw [World.create_file, if_neg (Nat.ne_of_lt used)]
  · intro directory name
    simp [apart]

theorem Good.importAll {start world : World} (inv : Inv start world)
    (good : Good importDir start world) {items : List Copying}
    (free : ∀ copying ∈ items, ∀ directory name, directory ++ [name] ∈ copying.files →
      ¬ markerPrefix <+: name ∧ world.inode (.imported (markerPath directory name)) = none) :
    Good importDir start (botbrew_import world items) := by
  induction items generalizing world with
  | nil => exact good
  | cons copying rest ih =>
      have item : Inv start (importItem world copying).1 ∧
          Good importDir start (importItem world copying).1 ∧
          Markers world (importItem world copying).1 := by
        unfold importItem
        split
        · exact ⟨inv, good, fun _ _ => rfl⟩
        · have links := inv.links copying.item copying.files
          obtain ⟨linked, markers⟩ := good.links inv copying.item
            (free copying List.mem_cons_self)
          split
          · obtain ⟨touched, others⟩ := linked.touch links copying.item
            exact ⟨links.touch, touched,
              fun directory name => (others directory name).trans (markers directory name)⟩
          · exact ⟨links, linked, markers⟩
      obtain ⟨inv, good, markers⟩ := item
      unfold botbrew_import
      split
      · next next result =>
          rw [result] at inv good markers
          apply ih inv good
          intro other member directory name listed
          rw [markers]
          exact free other (List.mem_cons_of_mem _ member) directory name listed
      · next next result =>
          rw [result] at good
          exact good

theorem Good.start {start : World} (initial : Initial start) : Good importDir start start where
  plain directory name inode _ _ _ found := by
    rw [initial.imported] at found
    cases found
  fixed script _ _ marked := by
    rw [Script.marker, initial.imported] at marked
    cases marked

theorem Good.reaches {start world : World} (initial : Initial start)
    (reaches : Reaches importDir (fun world made => Possible world made ∧ Careful world made)
      start world) : Good importDir start world := by
  induction reaches with
  | start => exact Good.start initial
  | step before made may ih =>
      have inv := Inv.reaches initial before
      obtain ⟨_, careful⟩ := may
      cases made with
      | importAll items =>
          cases careful with
          | importAll free => exact ih.importAll inv free
      | fix script errexit limit => exact (ih.fix inv careful).1

/-- No call ever changes an export tree; and in a run of careful calls every script for
which a call succeeds is the fixed one. -/
theorem crosslibconfig_sound (importDir : ImportDirectory) (start : World)
    (initial : Initial start) :
    (∀ world, Reaches importDir Possible start world → Untouched start world) ∧
      ∀ world, Reaches importDir (fun world made => Possible world made ∧ Careful world made)
          start world →
        ∀ script errexit limit, Careful world (.fix script errexit limit) →
          script.directory.getLast? = some "bin".toList →
            (botbrew_fix_crosslibconfig importDir script errexit limit world).2 = some true →
              Fixed importDir start script
                (botbrew_fix_crosslibconfig importDir script errexit limit world).1 := by
  constructor
  · intro world reaches
    exact (Inv.reaches initial reaches).untouched
  · intro world reaches script errexit limit careful bin success
    exact ((Good.reaches initial reaches).fix (Inv.reaches initial reaches) careful).2 bin success

def pthConfig : Script := ⟨["bin".toList], "pth-config".toList, by decide⟩

/-- A dependency that exports one config script -/
def pth : World where
  file _ := ⟨"#!/bin/sh\nprefix=/system\necho -L$prefix/lib\n".toList, true⟩
  inode place :=
    if place = .exported "pth".toList (pthConfig.directory ++ [pthConfig.name]) then some 0
    else none
  next := 1

def importExample : ImportDirectory := ⟨"/work/weechat/import".toList, by decide⟩

def importPth : Call :=
  .importAll [⟨"pth".toList, [pthConfig.directory ++ [pthConfig.name]], true⟩]

theorem pth_inode (place : Place) : pth.inode place =
    if place = .exported "pth".toList (pthConfig.directory ++ [pthConfig.name]) then some 0
    else none := rfl

theorem pth_initial : Initial pth where
  imported path := by
    rw [pth_inode, if_neg]
    intro same
    cases same
  temp := rfl
  used place inode found := by
    rw [pth_inode, Option.ite_none_right_eq_some] at found
    obtain ⟨_, found⟩ := found
    cases found
    exact Nat.zero_lt_one

theorem pth_exported {path : Path} (exported : (pth.inode (.exported "pth".toList path)).isSome) :
    path = pthConfig.directory ++ [pthConfig.name] := by
  by_contra other
  rw [pth_inode, if_neg fun same => other (Place.exported.inj same).2] at exported
  cases exported

theorem importPth_possible : Possible pth importPth := by
  intro copying member _ path exported visible
  obtain rfl := List.mem_singleton.mp member
  exact List.mem_singleton.mpr (pth_exported exported)

theorem crosslibconfig_sound_pth :
    Fixed importExample pth pthConfig (botbrew_fix_crosslibconfig importExample pthConfig true 6
      (call importExample pth importPth).1).1 := by
  have careful : Careful pth importPth := by
    constructor
    intro copying member directory name listed
    obtain rfl := List.mem_singleton.mp member
    have names := (List.append_inj' (List.mem_singleton.mp listed) rfl).2
    rw [(List.cons.inj names).1]
    exact ⟨by decide, pth_initial.imported _⟩
  have imported : Reaches importExample (fun world made => Possible world made ∧
      Careful world made) pth (call importExample pth importPth).1 :=
    .step .start importPth ⟨importPth_possible, careful⟩
  exact (crosslibconfig_sound importExample pth pth_initial).2 _ imported pthConfig true 6
    (.fix (by decide) (fun _ _ => by decide) fun _ _ => .inl rfl) rfl (by decide +kernel)

/-- A call that is stopped between the two `mv` leaves the marker without the script, and
the next call takes the marker for success. -/
theorem crosslibconfig_loses_script :
    let imported := (call importExample pth importPth).1
    let stopped := (call importExample imported (.fix pthConfig true 4)).1
    Reaches importExample Possible pth stopped ∧
      (botbrew_fix_crosslibconfig importExample pthConfig true 6 stopped).2 = some true ∧
      (botbrew_fix_crosslibconfig importExample pthConfig true 6 stopped).1.inode
        pthConfig.place = none ∧
      ¬ Fixed importExample pth pthConfig
        (botbrew_fix_crosslibconfig importExample pthConfig true 6 stopped).1 := by
  intro imported stopped
  have gone : (botbrew_fix_crosslibconfig importExample pthConfig true 6 stopped).1.inode
      pthConfig.place = none := by decide +kernel
  refine ⟨?_, by decide +kernel, gone, ?_⟩
  · exact .step (.step .start importPth importPth_possible) (.fix pthConfig true 4) trivial
  · rintro ⟨_, _, inode, _, found, _⟩
    rw [gone] at found
    cases found

end BotBrew.CrossLibConfig
