import BotBrew.Opkg.Staging

/-! When the staging of `Data` is confined to its directory and independent of the order. -/

set_option autoImplicit false

namespace BotBrew.Opkg.Staging

open Text

def visited (current : Path) : List Component → List Path
  | [] => []
  | .here :: rest => visited current rest
  | .parent :: rest => visited current.dropLast rest
  | .name name :: rest => (current ++ [name]) :: visited (current ++ [name]) rest

def location (current : Path) : List Component → Path
  | [] => current
  | .here :: rest => location current rest
  | .parent :: rest => location current.dropLast rest
  | .name name :: rest => location (current ++ [name]) rest

def entered (world : World) (directories : List Path) : World := fun path =>
  if path ∈ directories ∧ world path = none then some .directory else world path

theorem visited_name (current : Path) (name : Text) (rest : List Component) :
    visited current (.name name :: rest) =
      (current ++ [name]) :: visited (current ++ [name]) rest := rfl

theorem entered_apply (world : World) (directories : List Path) (path : Path) :
    entered world directories path =
      if path ∈ directories ∧ world path = none then some .directory else world path := rfl

theorem node_cases (world : World) (path : Path) :
    world path = none ∨ world path = some .directory ∨ IsFile world path := by
  cases found : world path with
  | none => exact .inl rfl
  | some node =>
      cases node with
      | directory => exact .inr (.inl rfl)
      | file content executable => exact .inr (.inr ⟨content, executable, found⟩)

theorem IsFile.not_directory {world : World} {path : Path} (file : IsFile world path) :
    world path ≠ some .directory := by
  obtain ⟨content, executable, found⟩ := file
  rw [found]
  intro same
  cases same

theorem resolve_iff (world : World) (current : Path) (parts : List Component) (path : Path) :
    resolve world current parts = some path ↔
      (∀ directory ∈ visited current parts, world directory = some .directory) ∧
        path = location current parts := by
  induction parts generalizing current with
  | nil => simp [resolve, visited, location, eq_comm]
  | cons part rest ih =>
      cases part with
      | here => exact ih current
      | parent => exact ih current.dropLast
      | name name =>
          rw [resolve, visited, location, List.forall_mem_cons]
          obtain absent | directory | file := node_cases world (current ++ [name])
          · simp [absent]
          · simp [directory, ih]
          · obtain ⟨content, executable, found⟩ := file
            simp [found]

structure Kept (world next : World) : Prop where
  file : ∀ path, IsFile world path → IsFile next path
  directory : ∀ path, world path = some .directory → next path = some .directory

theorem Kept.refl (world : World) : Kept world world := ⟨fun _ file => file, fun _ found => found⟩

theorem Kept.trans {first second third : World} (before : Kept first second)
    (after : Kept second third) : Kept first third :=
  ⟨fun path file => after.file path (before.file path file),
    fun path found => after.directory path (before.directory path found)⟩

theorem kept_update {world : World} {path : Path} (absent : world path = none) :
    Kept world (Function.update world path (some .directory)) := by
  constructor
  · rintro other ⟨content, executable, found⟩
    have different : other ≠ path := by
      rintro rfl
      rw [absent] at found
      cases found
    exact ⟨content, executable, by rw [Function.update_of_ne different, found]⟩
  · intro other found
    have different : other ≠ path := by
      rintro rfl
      rw [absent] at found
      cases found
    rw [Function.update_of_ne different, found]

theorem makedirs_kept (world : World) (current : Path) (parts : List Component) :
    Kept world (makedirs world current parts) := by
  fun_induction makedirs world current parts with
  | case1 => exact Kept.refl _
  | case2 world current rest ih => exact ih
  | case3 world current rest ih => exact ih
  | case4 world current name rest absent ih => exact (kept_update absent).trans ih
  | case5 world current name rest found ih => exact ih
  | case6 => exact Kept.refl _

theorem makedirs_free {world : World} {current : Path} {parts : List Component}
    (way : ∀ directory ∈ visited current parts, ¬ IsFile world directory) :
    makedirs world current parts = entered world (visited current parts) := by
  fun_induction makedirs world current parts with
  | case1 =>
      funext path
      simp [visited, entered_apply]
  | case2 world current rest ih => exact ih way
  | case3 world current rest ih => exact ih way
  | case4 world current name rest absent ih =>
      have later : ∀ directory ∈ visited (current ++ [name]) rest,
          ¬ IsFile (Function.update world (current ++ [name]) (some .directory)) directory := by
        intro directory member
        cases Decidable.eq_or_ne directory (current ++ [name]) with
        | inl same =>
            subst same
            rintro ⟨content, executable, found⟩
            rw [Function.update_self] at found
            cases found
        | inr different =>
            rintro ⟨content, executable, found⟩
            rw [Function.update_of_ne different] at found
            exact way directory (List.mem_cons_of_mem _ member) ⟨content, executable, found⟩
      rw [ih later]
      funext path
      simp only [entered_apply, visited_name, List.mem_cons]
      cases Decidable.eq_or_ne path (current ++ [name]) with
      | inl same =>
          subst same
          simp [absent]
      | inr different => simp only [Function.update_of_ne different, different, false_or]
  | case5 world current name rest found ih =>
      rw [ih fun directory member => way directory (List.mem_cons_of_mem _ member)]
      funext path
      simp only [entered_apply, visited_name, List.mem_cons]
      cases Decidable.eq_or_ne path (current ++ [name]) with
      | inl same =>
          subst same
          simp [found]
      | inr different => simp only [different, false_or]
  | case6 world current name rest content executable found =>
      exact absurd ⟨content, executable, found⟩ (way _ List.mem_cons_self)

theorem makedirs_visited {world : World} {current : Path} {parts : List Component}
    (clear : ∀ directory ∈ visited current parts, ¬ IsFile world directory) :
    ∀ directory ∈ visited current parts,
      makedirs world current parts directory = some .directory := by
  intro directory member
  rw [makedirs_free clear, entered]
  obtain absent | found | file := node_cases world directory
  · simp [member, absent]
  · simp [found]
  · exact absurd file (clear directory member)

def target (parts : List Component) : Option Path :=
  match parts.getLast? with
  | some (.name name) => some (location [] parts.dropLast ++ [name])
  | _ => none

def way (parts : List Component) : List Path := visited [] parts.dropLast

/-- No file is on the way of a path, and the path itself is none of the directories. -/
structure Free (world : World) (directories : List Path) (path : Path) : Prop where
  way : ∀ directory ∈ directories, ¬ IsFile world directory
  free : world path ≠ some .directory
  apart : path ∉ directories

theorem opened_iff (world : World) (parts : List Component) (path : Path) :
    opened (makedirs world [] parts.dropLast) parts = some path ↔
      target parts = some path ∧ Free world (way parts) path := by
  unfold opened target
  cases last : parts.getLast? with
  | none => simp
  | some part =>
      cases part with
      | here => simp
      | parent => simp
      | name name =>
          rw [Option.some_inj]
          cases reached : resolve (makedirs world [] parts.dropLast) [] parts.dropLast with
          | none =>
              have blocked : ¬ Free world (way parts) path := by
                intro free
                have made := (resolve_iff _ _ _ _).mpr
                  ⟨makedirs_visited free.way, (rfl : location [] parts.dropLast = _)⟩
                rw [reached] at made
                cases made
              simp [blocked]
          | some current =>
              obtain ⟨directories, rfl⟩ := (resolve_iff _ _ _ _).mp reached
              have kept := makedirs_kept world [] parts.dropLast
              have clear : ∀ directory ∈ way parts, ¬ IsFile world directory :=
                fun directory member file =>
                  (kept.file directory file).not_directory (directories directory member)
              simp only [Option.ite_none_left_eq_some, Option.some_inj]
              rw [and_comm]
              apply and_congr_right
              intro same
              rw [same, makedirs_free clear]
              constructor
              · intro free
                have outside : path ∉ way parts := by
                  intro inside
                  have directory := directories path inside
                  rw [makedirs_free clear] at directory
                  exact free directory
                refine ⟨clear, ?_, outside⟩
                intro directory
                apply free
                rw [entered_apply, directory]
                simp
              · intro free
                have outside : path ∉ visited [] parts.dropLast := free.apart
                rw [entered_apply]
                simp [outside, free.free]

/-- What a step of the loop makes when it does not raise. -/
structure Step where
  directories : List Path
  path : Path
  content : Text

def Step.apply (step : Step) (world : World) : World :=
  write (entered world step.directories) step.path step.content

def step (parts : List Component) (content : Text) (path : Path) : Step :=
  ⟨way parts, path, content⟩

theorem create_written (world : World) (parts : List Component) (content : Option Text)
    (path : Path) :
    path ∈ (create world parts content).written ↔
      target parts = some path ∧ Free world (way parts) path := by
  rw [← opened_iff]
  unfold create openWrite
  cases opened (makedirs world [] parts.dropLast) parts with
  | none => simp
  | some other =>
      cases content with
      | none => simp [eq_comm]
      | some content => simp [eq_comm]

theorem create_ok {world : World} {parts : List Component} {content : Option Text}
    (ok : (create world parts content).ok = true) :
    ∃ text path, content = some text ∧ target parts = some path ∧ Free world (way parts) path := by
  have written := create_written world parts content
  unfold create openWrite at ok written
  cases found : opened (makedirs world [] parts.dropLast) parts with
  | none =>
      rw [found] at ok
      cases ok
  | some path =>
      rw [found] at ok written
      cases content with
      | none => cases ok
      | some text => exact ⟨text, path, rfl, (written path).mp List.mem_cons_self⟩

theorem create_free {world : World} {parts : List Component} {path : Path}
    (named : target parts = some path) (free : Free world (way parts) path) (content : Text) :
    create world parts (some content) = ⟨(step parts content path).apply world, [path], true⟩ := by
  unfold create openWrite
  rw [(opened_iff world parts path).mpr ⟨named, free⟩, makedirs_free free.way]
  rfl

theorem Step.apply_path (step : Step) (world : World) :
    step.apply world step.path =
      some (.file step.content (mode (entered world step.directories step.path))) :=
  Function.update_self _ _ _

theorem Step.apply_of_ne (step : Step) (world : World) {path : Path} (other : path ≠ step.path) :
    step.apply world path = entered world step.directories path :=
  Function.update_of_ne other _ _

theorem entered_kept (world : World) (directories : List Path) :
    Kept world (entered world directories) := by
  constructor
  · rintro path ⟨content, executable, found⟩
    exact ⟨content, executable, by simp [entered_apply, found]⟩
  · intro path found
    simp [entered_apply, found]

theorem Step.kept {step : Step} {world : World} (free : Free world step.directories step.path) :
    Kept world (step.apply world) := by
  have before := entered_kept world step.directories
  constructor
  · intro path file
    cases Decidable.eq_or_ne path step.path with
    | inl same =>
        subst same
        exact ⟨_, _, step.apply_path world⟩
    | inr other =>
        unfold IsFile
        rw [step.apply_of_ne world other]
        exact before.file path file
  · intro path found
    have other : path ≠ step.path := by
      rintro rfl
      exact free.free found
    rw [step.apply_of_ne world other]
    exact before.directory path found

/-- A tree in which exactly these steps have been made. -/
structure Describes (start : World) (steps : Step → Prop) (world : World) : Prop where
  kept : Kept start world
  files : ∀ path, (∃ step, steps step ∧ step.path = path) →
    ∃ step, steps step ∧ step.path = path ∧
      world path = some (.file step.content (mode (start path)))
  directories : ∀ path, (∃ step, steps step ∧ path ∈ step.directories) →
    world path = some .directory
  rest : ∀ path, (∀ step, steps step → step.path ≠ path ∧ path ∉ step.directories) →
    world path = start path

theorem describes_start (start : World) : Describes start (fun _ => False) start where
  kept := Kept.refl start
  files := by simp
  directories := by simp
  rest _ _ := rfl

theorem Describes.mode {start : World} {steps : Step → Prop} {world : World}
    (describes : Describes start steps world) {path : Path}
    (free : world path ≠ some .directory) : mode (world path) = mode (start path) := by
  by_cases written : ∃ step, steps step ∧ step.path = path
  · obtain ⟨_, _, _, found⟩ := describes.files path written
    rw [found]
    rfl
  · have untouched := describes.rest path fun step made =>
      ⟨fun same => written ⟨step, made, same⟩,
        fun member => free (describes.directories path ⟨step, made, member⟩)⟩
    rw [untouched]

theorem Describes.step {start : World} {steps : Step → Prop} {world : World}
    (describes : Describes start steps world) (next : Step)
    (free : Free world next.directories next.path) :
    Describes start (fun step => steps step ∨ step = next) (next.apply world) := by
  have kept := Step.kept free
  constructor
  · exact describes.kept.trans kept
  · rintro path ⟨step, made | rfl, same⟩
    · cases Decidable.eq_or_ne path next.path with
      | inl now =>
          subst now
          refine ⟨next, .inr rfl, rfl, ?_⟩
          rw [next.apply_path, entered_apply, if_neg (fun both => free.apart both.1),
            describes.mode free.free]
      | inr other =>
          obtain ⟨step, made, same, found⟩ := describes.files path ⟨step, made, same⟩
          refine ⟨step, .inl made, same, ?_⟩
          rw [next.apply_of_ne world other, entered_apply, found]
          simp
    · subst same
      refine ⟨step, .inr rfl, rfl, ?_⟩
      rw [step.apply_path, entered_apply, if_neg (fun both => free.apart both.1),
        describes.mode free.free]
  · rintro path ⟨step, made | rfl, member⟩
    · exact kept.directory path (describes.directories path ⟨step, made, member⟩)
    · have other : path ≠ step.path := by
        rintro rfl
        exact free.apart member
      rw [step.apply_of_ne world other, entered_apply]
      obtain absent | found | file := node_cases world path
      · simp [member, absent]
      · simp [found]
      · exact absurd file (free.way path member)
  · intro path outside
    obtain ⟨other, apart⟩ := outside next (.inr rfl)
    rw [next.apply_of_ne world other.symm, entered_apply, if_neg (fun both => apart both.1)]
    exact describes.rest path fun step made => outside step (.inl made)

theorem Describes.congr {start : World} {steps others : Step → Prop} {world : World}
    (describes : Describes start steps world) (same : ∀ step, steps step ↔ others step) :
    Describes start others world := by
  have equal : steps = others := funext fun step => propext (same step)
  rw [← equal]
  exact describes

/-- Steps of which none is in the way of another one, whatever their order. -/
structure Compatible (start : World) (steps : Step → Prop) : Prop where
  ways : ∀ step, steps step → ∀ directory ∈ step.directories, ¬ IsFile start directory
  paths : ∀ step, steps step → start step.path ≠ some .directory
  apart : ∀ step other, steps step → steps other → step.path ∉ other.directories

theorem Describes.compatible {start : World} {steps : Step → Prop} {world : World}
    (describes : Describes start steps world) : Compatible start steps := by
  have file : ∀ step, steps step → IsFile world step.path := by
    intro step made
    obtain ⟨other, _, _, found⟩ := describes.files step.path ⟨step, made, rfl⟩
    exact ⟨_, _, found⟩
  constructor
  · intro step made directory member before
    exact (describes.kept.file directory before).not_directory
      (describes.directories directory ⟨step, made, member⟩)
  · intro step made directory
    exact (file step made).not_directory (describes.kept.directory step.path directory)
  · intro step other made madeOther member
    exact (file step made).not_directory
      (describes.directories step.path ⟨other, madeOther, member⟩)

theorem Describes.free {start : World} {steps all : Step → Prop} {world : World}
    (describes : Describes start steps world) (compatible : Compatible start all)
    (included : ∀ step, steps step → all step) (next : Step) (member : all next) :
    Free world next.directories next.path := by
  constructor
  · intro directory inside file
    by_cases written : ∃ step, steps step ∧ step.path = directory
    · obtain ⟨step, made, rfl⟩ := written
      exact compatible.apart step next (included step made) member inside
    · by_cases visited : ∃ step, steps step ∧ directory ∈ step.directories
      · exact file.not_directory (describes.directories directory visited)
      · have untouched := describes.rest directory fun step made =>
          ⟨fun same => written ⟨step, made, same⟩, fun inside => visited ⟨step, made, inside⟩⟩
        apply compatible.ways next member directory inside
        unfold IsFile at file ⊢
        rw [← untouched]
        exact file
  · intro directory
    by_cases written : ∃ step, steps step ∧ step.path = next.path
    · obtain ⟨_, _, _, found⟩ := describes.files next.path written
      rw [found] at directory
      cases directory
    · by_cases visited : ∃ step, steps step ∧ next.path ∈ step.directories
      · obtain ⟨step, made, inside⟩ := visited
        exact compatible.apart next step member (included step made) inside
      · have untouched := describes.rest next.path fun step made =>
          ⟨fun same => written ⟨step, made, same⟩, fun inside => visited ⟨step, made, inside⟩⟩
        apply compatible.paths next member
        rw [← untouched]
        exact directory
  · exact compatible.apart next next member member

section

variable {env : Environment} {package : Path}

/-- What an entry makes when its templates do not raise. -/
structure Makes (env : Environment) (package : Path) (entry : Text × Text) (parts : List Component)
    (step : Step) : Prop where
  expanded : expanded env package entry.1 = some parts
  target : target parts = some step.path
  way : step.directories = way parts
  content : env.encoded entry.2 = some step.content

def Made (env : Environment) (package : Path) (data : List (Text × Text)) (step : Step) : Prop :=
  ∃ entry ∈ data, ∃ parts, Makes env package entry parts step

/-- The file that a key opens. -/
def Opens (env : Environment) (package : Path) (world : World) (key : Text) (path : Path) : Prop :=
  ∃ parts, expanded env package key = some parts ∧ target parts = some path ∧
    Free world (way parts) path

theorem Makes.unique {entry : Text × Text} {parts others : List Component} {step other : Step}
    (makes : Makes env package entry parts step) (again : Makes env package entry others other) :
    step = other := by
  have same : parts = others := Option.some.inj (makes.expanded.symm.trans again.expanded)
  subst same
  cases step with
  | mk directories path content =>
      cases other with
      | mk others otherPath otherContent =>
          have paths : path = otherPath := Option.some.inj (makes.target.symm.trans again.target)
          have ways : directories = others := makes.way.trans again.way.symm
          have contents : content = otherContent :=
            Option.some.inj (makes.content.symm.trans again.content)
          rw [paths, ways, contents]

theorem Makes.free {entry : Text × Text} {parts : List Component} {step : Step}
    (makes : Makes env package entry parts step) {world : World}
    (free : Free world step.directories step.path) :
    stageEntry env package world entry = ⟨step.apply world, [step.path], true⟩ := by
  unfold stageEntry
  rw [makes.expanded, makes.content]
  rw [makes.way] at free
  have created := create_free makes.target free step.content
  have same : Staging.step parts step.content step.path = step := by
    cases step with
    | mk directories path content => exact congrArg (Step.mk · path content) makes.way.symm
  rw [same] at created
  exact created

theorem stageEntry_ok {world : World} {entry : Text × Text}
    (ok : (stageEntry env package world entry).ok = true) :
    ∃ parts step, Makes env package entry parts step ∧ Free world step.directories step.path := by
  unfold stageEntry at ok
  cases key : expanded env package entry.1 with
  | none =>
      rw [key] at ok
      cases ok
  | some parts =>
      rw [key] at ok
      obtain ⟨text, path, content, named, free⟩ := create_ok ok
      exact ⟨parts, step parts text path, ⟨key, named, rfl, content⟩, free⟩

theorem stageEntry_written {world : World} {entry : Text × Text} {path : Path} :
    path ∈ (stageEntry env package world entry).written ↔ Opens env package world entry.1 path := by
  unfold stageEntry Opens
  cases expanded env package entry.1 with
  | none => simp
  | some parts => simp [create_written]

theorem andThen_ok (outcome : Outcome) (next : World → Outcome) :
    (outcome.andThen next).ok = true ↔ outcome.ok = true ∧ (next outcome.world).ok = true := by
  unfold Outcome.andThen
  cases ok : outcome.ok with
  | false => simp [ok]
  | true => simp

theorem andThen_world {outcome : Outcome} (ok : outcome.ok = true) (next : World → Outcome) :
    (outcome.andThen next).world = (next outcome.world).world := by
  unfold Outcome.andThen
  rw [if_pos ok]

theorem written_andThen {outcome : Outcome} {path : Path} (written : path ∈ outcome.written)
    (next : World → Outcome) : path ∈ (outcome.andThen next).written := by
  unfold Outcome.andThen
  split
  · exact List.mem_append_left _ written
  · exact written

theorem andThen_written {outcome : Outcome} {next : World → Outcome} {path : Path}
    (written : path ∈ (outcome.andThen next).written) :
    path ∈ outcome.written ∨ (outcome.ok = true ∧ path ∈ (next outcome.world).written) := by
  unfold Outcome.andThen at written
  cases ok : outcome.ok with
  | false =>
      rw [ok] at written
      exact .inl written
  | true =>
      rw [ok] at written
      exact (List.mem_append.mp written).imp id fun later => ⟨rfl, later⟩

theorem Made.cons {entry : Text × Text} {rest : List (Text × Text)} {parts : List Component}
    {step : Step} (makes : Makes env package entry parts step) (other : Step) :
    Made env package (entry :: rest) other ↔ other = step ∨ Made env package rest other := by
  unfold Made
  rw [List.exists_mem_cons_iff]
  apply or_congr_left
  constructor
  · rintro ⟨others, again⟩
    exact again.unique makes
  · rintro rfl
    exact ⟨parts, makes⟩

theorem stageData_describes {start : World} {steps : Step → Prop} {world : World}
    {data : List (Text × Text)} (describes : Describes start steps world)
    (ok : (stageData env package world data).ok = true) :
    Describes start (fun step => steps step ∨ Made env package data step)
        (stageData env package world data).world ∧
      ∀ entry ∈ data, ∃ parts step, Makes env package entry parts step := by
  induction data generalizing world steps with
  | nil =>
      constructor
      · exact describes.congr fun step => by simp [Made]
      · intro entry member
        cases member
  | cons entry rest ih =>
      unfold stageData at ok ⊢
      obtain ⟨first, later⟩ := (andThen_ok _ _).mp ok
      obtain ⟨parts, step, makes, free⟩ := stageEntry_ok first
      rw [andThen_world first]
      rw [makes.free free] at later ⊢
      obtain ⟨after, others⟩ := ih (describes.step step free) later
      constructor
      · apply after.congr
        intro other
        rw [Made.cons makes, or_assoc]
      · intro other member
        obtain rfl | member := List.mem_cons.mp member
        · exact ⟨parts, step, makes⟩
        · exact others other member

theorem stageData_ok {start : World} {steps all : Step → Prop} {world : World}
    {data : List (Text × Text)} (describes : Describes start steps world)
    (compatible : Compatible start all) (included : ∀ step, steps step → all step)
    (makes : ∀ entry ∈ data, ∃ parts step, Makes env package entry parts step ∧ all step) :
    (stageData env package world data).ok = true := by
  induction data generalizing world steps with
  | nil => rfl
  | cons entry rest ih =>
      obtain ⟨parts, step, made, member⟩ := makes entry List.mem_cons_self
      have free := describes.free compatible included step member
      unfold stageData
      rw [andThen_ok, made.free free]
      constructor
      · rfl
      · apply ih (describes.step step free)
        · rintro other (before | rfl)
          · exact included other before
          · exact member
        · exact fun other inside => makes other (List.mem_cons_of_mem _ inside)

theorem Free.before {start world : World} (kept : Kept start world) {directories : List Path}
    {path : Path} (free : Free world directories path) : Free start directories path :=
  ⟨fun directory member file => free.way directory member (kept.file directory file),
    fun directory => free.free (kept.directory path directory), free.apart⟩

theorem Opens.before {start world : World} (kept : Kept start world) {key : Text} {path : Path}
    (opens : Opens env package world key path) : Opens env package start key path := by
  obtain ⟨parts, expands, named, free⟩ := opens
  exact ⟨parts, expands, named, free.before kept⟩

theorem stageData_written {start world : World} (kept : Kept start world)
    {data : List (Text × Text)} {path : Path}
    (written : path ∈ (stageData env package world data).written) :
    ∃ entry ∈ data, Opens env package start entry.1 path := by
  induction data generalizing world with
  | nil => cases written
  | cons entry rest ih =>
      unfold stageData at written
      obtain now | ⟨ok, later⟩ := andThen_written written
      · exact ⟨entry, List.mem_cons_self, (stageEntry_written.mp now).before kept⟩
      · obtain ⟨parts, step, makes, free⟩ := stageEntry_ok ok
        rw [makes.free free] at later
        obtain ⟨other, member, opens⟩ := ih (kept.trans (Step.kept free)) later
        exact ⟨other, List.mem_cons_of_mem _ member, opens⟩

end

def executable : Option Node → Option Node
  | some (.file content _) => some (.file content true)
  | other => other

theorem chmod_apply (world : World) (path other : Path) :
    chmod world path other = if other = path then executable (world other) else world other := by
  unfold chmod
  cases Decidable.eq_or_ne other path with
  | inl same =>
      subst same
      rw [if_pos rfl]
      obtain absent | found | ⟨content, mode, found⟩ := node_cases world other
      · rw [absent]
        exact absent
      · rw [found]
        exact found
      · rw [found]
        exact Function.update_self _ _ _
  | inr different =>
      rw [if_neg different]
      obtain absent | found | ⟨content, mode, found⟩ := node_cases world path
      · rw [absent]
      · rw [found]
      · rw [found]
        exact Function.update_of_ne different _ _

theorem executable_executable (node : Option Node) :
    executable (executable node) = executable node := by
  cases node with
  | none => rfl
  | some node => cases node <;> rfl

theorem executable_file {node : Option Node} {content : Text} {mode : Bool}
    (file : node = some (.file content mode)) :
    executable node = some (.file content true) := by
  rw [file]
  rfl

def scriptPaths (package : Path) : List Path :=
  maintainerScripts.map fun name => package ++ ["CONTROL".toList, name]

theorem chmods_apply (paths : List Path) (world : World) (path : Path) :
    paths.foldl chmod world path = if path ∈ paths then executable (world path) else world path := by
  induction paths generalizing world with
  | nil => rfl
  | cons other rest ih =>
      rw [List.foldl_cons, ih, chmod_apply]
      cases Decidable.eq_or_ne path other with
      | inl same => simp [same, executable_executable]
      | inr different => simp [different]

theorem chmodScripts_apply (package : Path) (world : World) (path : Path) :
    chmodScripts package world path =
      if path ∈ scriptPaths package then executable (world path) else world path := by
  rw [← chmods_apply, scriptPaths, List.foldl_map]
  rfl

theorem chmodScripts_kept (package : Path) (world : World) :
    Kept world (chmodScripts package world) := by
  constructor
  · rintro path ⟨content, mode, found⟩
    unfold IsFile
    rw [chmodScripts_apply]
    split
    · exact ⟨content, true, executable_file found⟩
    · exact ⟨content, mode, found⟩
  · intro path found
    rw [chmodScripts_apply, found]
    split <;> rfl

theorem chmodScripts_free {package : Path} {world : World} {directories : List Path} {path : Path} :
    Free (chmodScripts package world) directories path ↔ Free world directories path := by
  constructor
  · exact Free.before (chmodScripts_kept package world)
  · intro free
    constructor
    · rintro directory member ⟨content, mode, found⟩
      apply free.way directory member
      obtain absent | same | file := node_cases world directory
      · rw [chmodScripts_apply, absent] at found
        split at found <;> cases found
      · rw [chmodScripts_apply, same] at found
        split at found <;> cases found
      · exact file
    · intro directory
      apply free.free
      obtain absent | same | ⟨content, mode, file⟩ := node_cases world path
      · rw [chmodScripts_apply, absent] at directory
        split at directory <;> cases directory
      · exact same
      · rw [chmodScripts_apply, file] at directory
        split at directory <;> cases directory
    · exact free.apart

theorem location_names (current names : Path) :
    location current (names.map .name) = current ++ names := by
  induction names generalizing current with
  | nil => simp [location]
  | cons name rest ih =>
      rw [List.map_cons, location, ih]
      simp

theorem target_control (package : Path) :
    target (controlParts package) = some (controlPath package) := by
  have parts : controlParts package =
      (package ++ ["CONTROL".toList]).map .name ++ [.name "control".toList] := by
    simp [controlParts, controlPath]
  unfold target
  rw [parts, List.getLast?_concat, List.dropLast_concat]
  show some (location [] _ ++ _) = _
  rw [location_names]
  simp [controlPath]

theorem controlPath_notMem (package : Path) : controlPath package ∉ scriptPaths package := by
  unfold controlPath scriptPaths
  intro member
  obtain ⟨name, script, same⟩ := List.mem_map.mp member
  have last := (List.cons.inj (List.cons.inj (List.append_cancel_left same)).2).1
  rw [last] at script
  revert script
  decide

def controlStep (package : Path) (content : Text) : Step :=
  step (controlParts package) content (controlPath package)

variable (env : Environment) (OPKG_MAINTAINER : Option Text) (temporary : Temporary)
  (fields : Fields) (data : List (Text × Text))

def rendering : Option Text := (fields.setMaintainer OPKG_MAINTAINER).rendered

def Staged (step : Step) : Prop :=
  Made env temporary.package data step ∨
    ∃ content, rendering OPKG_MAINTAINER fields = some content ∧
      step = controlStep temporary.package content

/-- Nothing raises: the templates expand, the fields are strings, and no file is where
another path needs a directory. -/
structure Stageable : Prop where
  templates : ∀ entry ∈ data, ∃ parts step, Makes env temporary.package entry parts step
  control : ∃ content, rendering OPKG_MAINTAINER fields = some content
  compatible : Compatible temporary.world (Staged env OPKG_MAINTAINER temporary fields data)

/-- The property: staging is confined, fails or succeeds with one tree in every order, and
the tree has the entries and the control file. -/
structure Sound : Prop where
  confined : ∀ order : List (Text × Text), order.Perm data →
    ∀ path ∈ (stage env OPKG_MAINTAINER temporary fields order).written,
      temporary.package <+: path
  same : ∀ first second : List (Text × Text), first.Perm data → second.Perm data →
    (stage env OPKG_MAINTAINER temporary fields first).ok =
        (stage env OPKG_MAINTAINER temporary fields second).ok ∧
      ((stage env OPKG_MAINTAINER temporary fields first).ok = true →
        (stage env OPKG_MAINTAINER temporary fields first).world =
          (stage env OPKG_MAINTAINER temporary fields second).world)
  present : ∀ order : List (Text × Text), order.Perm data →
    (stage env OPKG_MAINTAINER temporary fields order).ok = true →
      ∀ entry ∈ data, ∃ parts path content, expanded env temporary.package entry.1 = some parts ∧
        target parts = some path ∧ env.encoded entry.2 = some content ∧
        (path ≠ controlPath temporary.package → ∃ executable,
          (stage env OPKG_MAINTAINER temporary fields order).world path =
            some (.file content executable))
  control : ∀ order : List (Text × Text), order.Perm data →
    (stage env OPKG_MAINTAINER temporary fields order).ok = true →
      ∃ content executable, rendering OPKG_MAINTAINER fields = some content ∧
        (stage env OPKG_MAINTAINER temporary fields order).world (controlPath temporary.package) =
          some (.file content executable)

/-- No key opens a file outside of the directory, and unless something raises, two keys for
one path have one content. -/
structure Orderly : Prop where
  confined : ∀ entry ∈ data, ∀ path, Opens env temporary.package temporary.world entry.1 path →
    temporary.package <+: path
  agree : Stageable env OPKG_MAINTAINER temporary fields data →
    ∀ step other, Made env temporary.package data step → Made env temporary.package data other →
      step.path = other.path → step.path ≠ controlPath temporary.package →
        step.content = other.content

variable {env OPKG_MAINTAINER temporary fields data}

theorem Made.perm {package : Path} {order : List (Text × Text)} (permuted : order.Perm data)
    (step : Step) : Made env package order step ↔ Made env package data step := by
  unfold Made
  simp only [permuted.mem_iff]

theorem Stageable.perm {order : List (Text × Text)} (permuted : order.Perm data) :
    Stageable env OPKG_MAINTAINER temporary fields order ↔
      Stageable env OPKG_MAINTAINER temporary fields data := by
  have same : Staged env OPKG_MAINTAINER temporary fields order =
      Staged env OPKG_MAINTAINER temporary fields data := by
    funext step
    simp only [Staged, Made.perm permuted]
  constructor
  · rintro ⟨templates, control, compatible⟩
    rw [same] at compatible
    exact ⟨fun entry member => templates entry (permuted.mem_iff.mpr member), control, compatible⟩
  · rintro ⟨templates, control, compatible⟩
    rw [← same] at compatible
    exact ⟨fun entry member => templates entry (permuted.mem_iff.mp member), control, compatible⟩

theorem stage_ok {order : List (Text × Text)}
    (ok : (stage env OPKG_MAINTAINER temporary fields order).ok = true) :
    ∃ content, rendering OPKG_MAINTAINER fields = some content ∧
      Describes temporary.world (Made env temporary.package order)
        (stageData env temporary.package temporary.world order).world ∧
      Free (stageData env temporary.package temporary.world order).world
        (controlStep temporary.package content).directories (controlPath temporary.package) ∧
      (∀ entry ∈ order, ∃ parts step, Makes env temporary.package entry parts step) ∧
      (stage env OPKG_MAINTAINER temporary fields order).world =
        (controlStep temporary.package content).apply (chmodScripts temporary.package
          (stageData env temporary.package temporary.world order).world) := by
  unfold stage at ok ⊢
  obtain ⟨first, later⟩ := (andThen_ok _ _).mp ok
  obtain ⟨describes, templates⟩ := stageData_describes (describes_start temporary.world) first
  unfold writeControl at later
  obtain ⟨content, path, rendered, named, free⟩ := create_ok later
  rw [target_control, Option.some_inj] at named
  subst named
  refine ⟨content, rendered, describes.congr fun step => by simp, chmodScripts_free.mp free,
    templates, ?_⟩
  rw [andThen_world first]
  unfold writeControl
  rw [rendered, create_free (target_control _) free]
  rfl

theorem stage_ok_iff (order : List (Text × Text)) :
    (stage env OPKG_MAINTAINER temporary fields order).ok = true ↔
      Stageable env OPKG_MAINTAINER temporary fields order := by
  constructor
  · intro ok
    obtain ⟨content, rendered, describes, free, templates, _⟩ := stage_ok ok
    have all := describes.step (controlStep temporary.package content) free
    refine ⟨templates, ⟨content, rendered⟩, ?_⟩
    apply (all.congr fun step => ?_).compatible
    simp [Staged, rendered]
  · rintro ⟨templates, ⟨content, rendered⟩, compatible⟩
    have included : ∀ step, Made env temporary.package order step →
        Staged env OPKG_MAINTAINER temporary fields order step := fun _ made => .inl made
    have ended : (stageData env temporary.package temporary.world order).ok = true := by
      apply stageData_ok (describes_start temporary.world) compatible
      · intro step impossible
        cases impossible
      · intro entry member
        obtain ⟨parts, step, makes⟩ := templates entry member
        exact ⟨parts, step, makes, .inl ⟨entry, member, parts, makes⟩⟩
    have describes := ((stageData_describes (describes_start temporary.world) ended).1.congr
      fun step => by rw [false_or])
    have free := describes.free compatible included (controlStep temporary.package content)
      (.inr ⟨content, rendered, rfl⟩)
    unfold stage
    rw [andThen_ok]
    refine ⟨ended, ?_⟩
    unfold writeControl
    rw [show (fields.setMaintainer OPKG_MAINTAINER).rendered = some content from rendered,
      create_free (target_control _) (chmodScripts_free.mpr free)]

theorem Describes.agree {start : World} {steps : Step → Prop} {first second : World}
    (one : Describes start steps first) (two : Describes start steps second) {path : Path}
    (contents : ∀ step other, steps step → steps other → step.path = path → other.path = path →
      step.content = other.content) : first path = second path := by
  by_cases written : ∃ step, steps step ∧ step.path = path
  · obtain ⟨step, made, same, found⟩ := one.files path written
    obtain ⟨other, madeOther, sameOther, foundOther⟩ := two.files path written
    rw [found, foundOther, contents step other made madeOther same sameOther]
  · by_cases visited : ∃ step, steps step ∧ path ∈ step.directories
    · rw [one.directories path visited, two.directories path visited]
    · have apart : ∀ step, steps step → step.path ≠ path ∧ path ∉ step.directories :=
        fun step made => ⟨fun same => written ⟨step, made, same⟩,
          fun member => visited ⟨step, made, member⟩⟩
      rw [one.rest path apart, two.rest path apart]

theorem control_other {package : Path} {content : Text} {world : World} {path : Path}
    (other : path ≠ controlPath package) :
    (controlStep package content).apply (chmodScripts package world) path =
      entered (chmodScripts package world) (controlStep package content).directories path :=
  (controlStep package content).apply_of_ne _ other

theorem control_written {start world : World} {steps : Step → Prop} {package : Path} {content : Text}
    (describes : Describes start steps world)
    (free : Free world (controlStep package content).directories (controlPath package)) :
    (controlStep package content).apply (chmodScripts package world) (controlPath package) =
      some (.file content (mode (start (controlPath package)))) := by
  have value := (controlStep package content).apply_path (chmodScripts package world)
  have same : (controlStep package content).path = controlPath package := rfl
  rw [same, entered_apply, if_neg (fun both => free.apart both.1), chmodScripts_apply,
    if_neg (controlPath_notMem package), describes.mode free.free] at value
  exact value

theorem Orderly.contents (orderly : Orderly env OPKG_MAINTAINER temporary fields data)
    (stageable : Stageable env OPKG_MAINTAINER temporary fields data) {path : Path}
    (other : path ≠ controlPath temporary.package) (step step' : Step)
    (made : Made env temporary.package data step) (made' : Made env temporary.package data step')
    (same : step.path = path) (same' : step'.path = path) : step.content = step'.content := by
  apply orderly.agree stageable step step' made made' (same.trans same'.symm)
  rw [same]
  exact other

theorem Orderly.sound (orderly : Orderly env OPKG_MAINTAINER temporary fields data) :
    Sound env OPKG_MAINTAINER temporary fields data := by
  constructor
  · intro order permuted path written
    unfold stage at written
    obtain loop | ⟨_, last⟩ := andThen_written written
    · obtain ⟨entry, member, opens⟩ := stageData_written (Kept.refl temporary.world) loop
      exact orderly.confined entry (permuted.mem_iff.mp member) path opens
    · unfold writeControl at last
      have named := ((create_written _ _ _ _).mp last).1
      rw [target_control, Option.some_inj] at named
      rw [← named]
      exact List.prefix_append _ _
  · intro first second firstPerm secondPerm
    have equal : (stage env OPKG_MAINTAINER temporary fields first).ok =
        (stage env OPKG_MAINTAINER temporary fields second).ok := by
      rw [Bool.eq_iff_iff, stage_ok_iff, stage_ok_iff, Stageable.perm firstPerm,
        Stageable.perm secondPerm]
    refine ⟨equal, ?_⟩
    intro ok
    have stageable := (Stageable.perm firstPerm).mp ((stage_ok_iff first).mp ok)
    obtain ⟨content, rendered, one, free, _, world⟩ := stage_ok ok
    rw [equal] at ok
    obtain ⟨content', rendered', two, free', _, world'⟩ := stage_ok ok
    have text : content = content' := Option.some.inj (rendered.symm.trans rendered')
    subst text
    have one := one.congr (Made.perm firstPerm)
    have two := two.congr (Made.perm secondPerm)
    rw [world, world']
    funext path
    cases Decidable.eq_or_ne path (controlPath temporary.package) with
    | inl control =>
        subst control
        rw [control_written one free, control_written two free']
    | inr other =>
        have agree := one.agree two (orderly.contents stageable other)
        rw [control_other other, control_other other, entered_apply, entered_apply,
          chmodScripts_apply, chmodScripts_apply, agree]
  · intro order permuted ok entry member
    have stageable := (Stageable.perm permuted).mp ((stage_ok_iff order).mp ok)
    obtain ⟨content, rendered, describes, free, _, world⟩ := stage_ok ok
    obtain ⟨parts, step, makes⟩ := stageable.templates entry member
    refine ⟨parts, step.path, step.content, makes.expanded, makes.target, makes.content, ?_⟩
    intro other
    have made : Made env temporary.package data step := ⟨entry, member, parts, makes⟩
    have describes := describes.congr (Made.perm permuted)
    obtain ⟨last, madeLast, same, found⟩ := describes.files step.path ⟨step, made, rfl⟩
    rw [orderly.contents stageable other last step madeLast made same rfl] at found
    have file : ∃ executable, chmodScripts temporary.package
        (stageData env temporary.package temporary.world order).world step.path =
        some (.file step.content executable) := by
      rw [chmodScripts_apply]
      split
      · exact ⟨true, executable_file found⟩
      · exact ⟨_, found⟩
    obtain ⟨executable, file⟩ := file
    apply Exists.intro executable
    rw [world, control_other other, entered_apply, file]
    simp
  · intro order permuted ok
    obtain ⟨content, rendered, describes, free, _, world⟩ := stage_ok ok
    refine ⟨content, mode (temporary.world (controlPath temporary.package)), rendered, ?_⟩
    rw [world]
    exact control_written describes free

theorem Sound.orderly (sound : Sound env OPKG_MAINTAINER temporary fields data) :
    Orderly env OPKG_MAINTAINER temporary fields data := by
  constructor
  · intro entry member path opens
    obtain ⟨before, after, rfl⟩ := List.append_of_mem member
    have permuted : (entry :: (before ++ after)).Perm (before ++ entry :: after) :=
      List.perm_middle.symm
    apply sound.confined _ permuted path
    -- The entry is the first one of this order.
    have first := stageEntry_written.mpr opens
    exact written_andThen (written_andThen first _) _
  · rintro stageable step other ⟨entry, member, parts, makes⟩ ⟨entry', member', parts', makes'⟩
      same different
    have ok := (stage_ok_iff data).mpr stageable
    have present : ∀ {entry : Text × Text} {parts : List Component} {step : Step}, entry ∈ data →
        Makes env temporary.package entry parts step →
          step.path ≠ controlPath temporary.package → ∃ executable,
            (stage env OPKG_MAINTAINER temporary fields data).world step.path =
              some (.file step.content executable) := by
      intro entry parts step member makes other
      obtain ⟨parts', path, content, expands, named, formats, found⟩ :=
        sound.present data (List.Perm.refl _) ok entry member
      have sameParts := Option.some.inj (makes.expanded.symm.trans expands)
      subst sameParts
      have samePath := Option.some.inj (makes.target.symm.trans named)
      subst samePath
      have sameContent := Option.some.inj (makes.content.symm.trans formats)
      subst sameContent
      exact found other
    obtain ⟨_, found⟩ := present member makes different
    obtain ⟨_, found'⟩ := present member' makes' (by rw [← same]; exact different)
    rw [← same, found] at found'
    exact (Node.file.inj (Option.some.inj found')).1

def temporaryExample : Temporary where
  world path := if path <+: ["tmp".toList, "tmp-opkg-1".toList] then some .directory else none
  package := ["tmp".toList, "tmp-opkg-1".toList]
  nonempty := by decide
  names := by decide
  above path inside := if_pos inside
  fresh path inside other := if_neg fun before => other (before.eq_of_length_le inside.length_le)

def environmentExample : Environment where
  get name := if name = "PREFIX".toList then some [] else none
  shown := "\x7b'PREFIX': ''\x7d".toList
  maxsize := 0x7fffffffffffffff

end BotBrew.Opkg.Staging
