import BotBrew.Recipe.Preparation
import Mathlib.Data.List.Nodup

/-! Runs of the preparation sequence that can be resumed. -/

set_option autoImplicit false

namespace BotBrew.Preparation

def applied (commands : Commands) (tree : Tree) (patch : Patch) : Tree :=
  (commands.patch patch tree).write patch.marker (some (.file patch.content))

/-- The tree with every patch of a list applied once. -/
def patched (commands : Commands) (tree : Tree) (patches : List Patch) : Tree :=
  patches.foldl (applied commands) tree

/-- A recipe whose archive can be unpacked, has the source directory, and has nothing there
that `*` leaves out, and whose patches have different names and keep the markers. -/
structure Sound (commands : Commands) (recipe : Recipe) (whole : Tree) : Prop where
  archive : ∃ known, tool recipe.archive = some known ∧
    (commands.extract known commands.remote).below recipe.subdirectory = some whole
  directory : whole [] = some .directory
  visible : ∀ name path, Shell.isHidden name = true → whole (name :: path) = none
  distinct : (recipe.patches.map Patch.name).Nodup
  markers : ∀ patch ∈ recipe.patches, ∀ other ∈ recipe.patches, ∀ tree,
    commands.patch patch tree other.marker = tree other.marker

def World.isMarked (world : World) (patch : Patch) : Bool :=
  (world.source.bind fun tree => tree patch.marker).isSome

/-- A failing `patch` ends the run and leaves no part of its work, and a failing copy of the
patch leaves all of it. -/
structure HarmlessPatch (run : Run) (patch : Patch) : Prop where
  damage : ∀ damage, run.patch patch = some damage → run.errexit = true ∧ ∀ tree, damage tree = tree
  marker : run.patch patch = none → ∀ left, run.marker patch = some left → left = some (.file patch.content)

/-- A run in which a failing command other than `wget` and `patch`, if the run gets to it,
leaves all of its work, and in which `wget` does not fail where errexit is ignored. -/
structure Harmless (commands : Commands) (recipe : Recipe) (whole : Tree) (run : Run) (world : World) : Prop where
  download : world.archive = none → run.wget ≠ none → run.errexit = true
  unpack : ∀ left, world.unpacked = none → run.unpack = some left →
    left.below recipe.subdirectory = some whole
  copy : ∀ left, world.source = none → run.copy = some left → left = whole
  patches : ∀ patch ∈ recipe.patches, world.isMarked patch = false → HarmlessPatch run patch

def HarmlessSession (commands : Commands) (recipe : Recipe) (whole : Tree) : List Run → World → Prop
  | [], _ => True
  | run :: runs, world =>
    Harmless commands recipe whole run world ∧
      HarmlessSession commands recipe whole runs (prepare commands recipe run world).1

/-- What is there is complete up to the patches not yet applied. -/
structure Prepared (commands : Commands) (recipe : Recipe) (whole : Tree) (world : World) : Prop where
  archive : ∀ content, world.archive = some content → content = commands.remote
  unpacked : ∀ tree, world.unpacked = some tree → tree.below recipe.subdirectory = some whole
  source : ∀ tree, world.source = some tree →
    ∃ done, done <+: recipe.patches ∧ tree = patched commands whole done

variable {commands : Commands} {recipe : Recipe} {whole : Tree} {run : Run} {world : World}

/-! ## Trees -/

theorem Tree.write_same (tree : Tree) (path : Path) (node : Option Node) : tree.write path node path = node :=
  if_pos rfl

theorem Tree.write_other {tree : Tree} {path other : Path} {node : Option Node} (different : other ≠ path) :
    tree.write path node other = tree other :=
  if_neg different

theorem marker_inj {patch other : Patch} (same : patch.marker = other.marker) : patch.name = other.name :=
  List.append_cancel_left (List.singleton_inj.mp same)

theorem Sound.visible_eq (sound : Sound commands recipe whole) : whole.visible = whole := by
  funext path
  cases path with
  | nil => exact sound.directory.symm
  | cons name path =>
    cases hidden : Shell.isHidden name with
    | true => rw [Tree.visible, if_pos hidden, sound.visible name path hidden]
    | false => rw [Tree.visible, if_neg (by simp [hidden])]

theorem Sound.whole_marker (sound : Sound commands recipe whole) (patch : Patch) : whole patch.marker = none :=
  sound.visible _ _ rfl

theorem patched_snoc (commands : Commands) (tree : Tree) (done : List Patch) (patch : Patch) :
    patched commands tree (done ++ [patch]) = applied commands (patched commands tree done) patch :=
  List.foldl_concat ..

/-- The markers in a patched tree are those of the applied patches. -/
theorem Sound.patched_marker (sound : Sound commands recipe whole) {done : List Patch}
    (applies : done ⊆ recipe.patches) {patch : Patch} (member : patch ∈ recipe.patches) :
    (patched commands whole done patch.marker).isSome = true ↔ patch.name ∈ done.map Patch.name := by
  induction done using List.reverseRecOn with
  | nil => simp [patched, sound.whole_marker patch]
  | append_singleton done last hypothesis =>
    have lastMember : last ∈ recipe.patches := applies (by simp)
    have earlier : done ⊆ recipe.patches := fun _ found => applies (List.mem_append_left _ found)
    rw [patched_snoc, applied, List.map_append, List.mem_append]
    cases Decidable.em (patch.marker = last.marker) with
    | inl same =>
      rw [same, Tree.write_same]
      simp [marker_inj same]
    | inr different =>
      have names : patch.name ≠ last.name := by
        intro same
        apply different
        rw [Patch.marker, Patch.marker, same]
      rw [Tree.write_other different, sound.markers last lastMember patch member, hypothesis earlier]
      simp [names]

theorem Sound.next_unmarked (sound : Sound commands recipe whole) {done rest : List Patch} {patch : Patch}
    (patches : recipe.patches = done ++ patch :: rest) : patched commands whole done patch.marker = none := by
  have member : patch ∈ recipe.patches := by simp [patches]
  have applies : done ⊆ recipe.patches := by simp [patches]
  have fresh : patch.name ∉ done.map Patch.name := by
    have distinct := sound.distinct
    rw [patches, List.map_append, List.map_cons] at distinct
    intro found
    exact (List.nodup_append.mp distinct).2.2 _ found _ (by simp) rfl
  cases found : patched commands whole done patch.marker with
  | none => rfl
  | some node => exact absurd ((sound.patched_marker applies member).mp (by simp [found])) fresh

theorem Sound.done_marked (sound : Sound commands recipe whole) {done : List Patch}
    (applies : done ⊆ recipe.patches) {patch : Patch} (member : patch ∈ done) :
    ∃ node, patched commands whole done patch.marker = some node :=
  Option.isSome_iff_exists.mp
    ((sound.patched_marker applies (applies member)).mpr (List.mem_map_of_mem member))

/-! ## Single parts -/

theorem Prepared.download (prepared : Prepared commands recipe whole world)
    (harmless : Harmless commands recipe whole run world) :
    botbrew_download commands run world = ({ world with archive := some commands.remote }, true) ∨
      botbrew_download commands run world = (world, false) ∧ run.errexit = true := by
  obtain ⟨archive, unpacked, source⟩ := world
  cases archive with
  | some content =>
    obtain rfl := prepared.archive content rfl
    exact .inl rfl
  | none =>
    cases fails : run.wget with
    | none => exact .inl (by simp only [botbrew_download, fails])
    | some left =>
      right
      constructor
      · simp only [botbrew_download, fails, World.rmArchive]
      · exact harmless.download rfl (by simp [fails])

theorem Prepared.unpack (sound : Sound commands recipe whole)
    (prepared : Prepared commands recipe whole world) (harmless : Harmless commands recipe whole run world) :
    ∃ tree, tree.below recipe.subdirectory = some whole ∧
      (botbrew_unpack commands recipe run { world with archive := some commands.remote }).1 =
        { world with archive := some commands.remote, unpacked := some tree } := by
  obtain ⟨archive, unpacked, source⟩ := world
  obtain ⟨known, found, below⟩ := sound.archive
  cases unpacked with
  | some tree => exact ⟨tree, prepared.unpacked tree rfl, rfl⟩
  | none =>
    cases fails : run.unpack with
    | none => exact ⟨_, below, by simp only [botbrew_unpack, found, fails]⟩
    | some left => exact ⟨left, harmless.unpack left rfl fails, by simp only [botbrew_unpack, found, fails]⟩

theorem Prepared.copytree (sound : Sound commands recipe whole)
    (prepared : Prepared commands recipe whole world) (harmless : Harmless commands recipe whole run world)
    {tree : Tree} (below : tree.below recipe.subdirectory = some whole) (archive : Option Text) :
    ∃ done, done <+: recipe.patches ∧ (∀ patch ∈ recipe.patches, patch ∉ done → world.isMarked patch = false) ∧
      (botbrew_copytree recipe run ⟨archive, some tree, world.source⟩).1 =
        ⟨archive, some tree, some (patched commands whole done)⟩ := by
  cases found : world.source with
  | some source =>
    obtain ⟨done, reached, rfl⟩ := prepared.source source found
    refine ⟨done, reached, ?_, by simp [botbrew_copytree, below]⟩
    intro patch member fresh
    rw [World.isMarked, found, Option.bind_some, ← Bool.not_eq_true, sound.patched_marker reached.subset member]
    intro named
    obtain ⟨other, applied, same⟩ := List.mem_map.mp named
    have equal := List.inj_on_of_nodup_map sound.distinct (reached.subset applied) member same
    exact fresh (equal ▸ applied)
  | none =>
    have unmarked : ∀ patch ∈ recipe.patches, patch ∉ [] → world.isMarked patch = false := by
      intro patch _ _
      rw [World.isMarked, found, Option.bind_none, Option.isSome_none]
    refine ⟨[], List.nil_prefix, unmarked, ?_⟩
    cases fails : run.copy with
    | none => simp [botbrew_copytree, below, fails, sound.visible_eq, patched]
    | some left =>
      obtain rfl := harmless.copy left found fails
      simp [botbrew_copytree, below, fails, patched]

theorem patchtree_next (sound : Sound commands recipe whole) {done rest : List Patch} {patch : Patch}
    (patches : recipe.patches = done ++ patch :: rest) (harmless : HarmlessPatch run patch)
    (source : world.source = some (patched commands whole done)) :
    (botbrew_patchtree commands run patch world).1 =
        { world with source := some (patched commands whole (done ++ [patch])) } ∨
      botbrew_patchtree commands run patch world = (world, false) ∧ run.errexit = true := by
  have unmarked := sound.next_unmarked patches
  cases fails : run.patch patch with
  | some damage =>
    obtain ⟨errexit, unchanged⟩ := harmless.damage damage fails
    right
    constructor
    · simp only [botbrew_patchtree, source, unmarked, patchIn, fails, errexit, unchanged, if_pos]
      rw [← source]
    · exact errexit
  | none =>
    left
    simp only [botbrew_patchtree, source, unmarked, patchIn, fails, patched_snoc, applied]
    cases markerFails : run.marker patch with
    | none => simp only [mark, markerFails]
    | some left =>
      obtain rfl := harmless.marker fails left markerFails
      simp only [mark, markerFails]

theorem patchtree_marked (sound : Sound commands recipe whole) {done : List Patch}
    (applies : done ⊆ recipe.patches) {patch : Patch} (member : patch ∈ done)
    (source : world.source = some (patched commands whole done)) :
    botbrew_patchtree commands run patch world = (world, true) := by
  obtain ⟨node, marked⟩ := sound.done_marked applies member
  simp only [botbrew_patchtree, source, marked]

/-! ## Sequences -/

/-- The source has got to some patch, and to the last one if the end was reached. -/
def Advanced (commands : Commands) (recipe : Recipe) (whole : Tree) (world : World) (result : World × Bool) : Prop :=
  ∃ done, done <+: recipe.patches ∧ result.1 = { world with source := some (patched commands whole done) } ∧
    (result.2 = true → done = recipe.patches)

theorem execute_next {parts : List Part} {part : Part} {steps : Nat}
    (goesOn : (part.run commands recipe run world).2 = true ∨ run.errexit = false) :
    execute commands recipe run (steps + 1) (part :: parts) world =
      execute commands recipe run steps parts (part.run commands recipe run world).1 :=
  if_pos (by simpa using goesOn)

theorem execute_stop {parts : List Part} {part : Part} {steps : Nat}
    (fails : (part.run commands recipe run world).2 = false) (errexit : run.errexit = true) :
    execute commands recipe run (steps + 1) (part :: parts) world =
      ((part.run commands recipe run world).1, false) :=
  if_neg (by simp [fails, errexit])

theorem execute_behind (sound : Sound commands recipe whole) (behind done : List Patch) (steps : Nat)
    (world : World) (patches : recipe.patches = done ++ behind)
    (harmless : ∀ patch ∈ behind, HarmlessPatch run patch)
    (source : world.source = some (patched commands whole done)) :
    Advanced commands recipe whole world
      (execute commands recipe run steps (behind.map .patchtree) world) := by
  induction behind generalizing done steps world with
  | nil =>
    rw [List.append_nil] at patches
    cases steps <;> exact ⟨done, patches ▸ List.prefix_rfl, by rw [← source]; rfl, fun _ => patches.symm⟩
  | cons patch behind hypothesis =>
    have reached : done <+: recipe.patches := ⟨_, patches.symm⟩
    cases steps with
    | zero => exact ⟨done, reached, by rw [← source]; rfl, fun ended => nomatch ended⟩
    | succ steps =>
      have extended : recipe.patches = (done ++ [patch]) ++ behind := by simp [patches]
      have later : ∀ other ∈ behind, HarmlessPatch run other :=
        fun other member => harmless other (List.mem_cons_of_mem _ member)
      obtain next | ⟨failed, errexit⟩ := patchtree_next sound patches (harmless patch (by simp)) source
      · cases Decidable.em
            ((Part.run commands recipe run world (.patchtree patch)).2 = true ∨ run.errexit = false) with
        | inl goesOn =>
          rw [List.map_cons, execute_next goesOn, Part.run, next]
          exact hypothesis (done ++ [patch]) steps _ extended later rfl
        | inr stops =>
          obtain ⟨fails, errexit⟩ := not_or.mp stops
          rw [List.map_cons, execute_stop (by simpa using fails) (by simpa using errexit), Part.run, next]
          exact ⟨done ++ [patch], ⟨_, extended.symm⟩, rfl, fun ended => nomatch ended⟩
      · rw [List.map_cons, execute_stop (by rw [Part.run, failed]) errexit, Part.run, failed]
        exact ⟨done, reached, by rw [← source], fun ended => nomatch ended⟩

theorem execute_patches (sound : Sound commands recipe whole) (ahead behind before : List Patch) (steps : Nat)
    (patches : recipe.patches = before ++ (ahead ++ behind))
    (harmless : ∀ patch ∈ behind, HarmlessPatch run patch)
    (source : world.source = some (patched commands whole (before ++ ahead))) :
    Advanced commands recipe whole world
      (execute commands recipe run steps ((ahead ++ behind).map .patchtree) world) := by
  induction ahead generalizing before steps with
  | nil =>
    rw [List.append_nil] at source
    exact execute_behind sound behind before steps world patches harmless source
  | cons patch ahead hypothesis =>
    have reached : before ++ patch :: ahead <+: recipe.patches := ⟨behind, by simp [patches]⟩
    cases steps with
    | zero => exact ⟨_, reached, by rw [← source]; rfl, fun ended => nomatch ended⟩
    | succ steps =>
      have skipped : botbrew_patchtree commands run patch world = (world, true) :=
        patchtree_marked sound reached.subset (by simp) source
      rw [List.cons_append, List.map_cons, execute_next (.inl (by rw [Part.run, skipped])), Part.run, skipped]
      apply hypothesis (before ++ [patch]) steps
      · simp [patches]
      · simp [source]

theorem execute_unpack (sound : Sound commands recipe whole) (prepared : Prepared commands recipe whole world)
    (harmless : Harmless commands recipe whole run world) (steps : Nat) (result : World × Bool)
    (runs : execute commands recipe run steps (.unpack :: .copytree :: recipe.patches.map .patchtree)
      { world with archive := some commands.remote } = result) :
    Prepared commands recipe whole result.1 ∧
      (result.2 = true → result.1.source = some (patched commands whole recipe.patches)) := by
  obtain ⟨tree, below, unpacks⟩ := prepared.unpack sound harmless
  cases steps with
  | zero =>
    obtain rfl := runs
    exact ⟨⟨fun _ found => (Option.some.inj found).symm, prepared.unpacked, prepared.source⟩, fun ended => nomatch ended⟩
  | succ steps =>
    rw [execute_next (.inl rfl), Part.run, unpacks] at runs
    obtain ⟨done, reached, unmarked, copies⟩ :=
      prepared.copytree sound harmless below (some commands.remote)
    cases steps with
    | zero =>
      obtain rfl := runs
      constructor
      · constructor
        · exact fun _ found => (Option.some.inj found).symm
        · exact fun _ found => Option.some.inj found ▸ below
        · exact prepared.source
      · exact fun ended => nomatch ended
    | succ steps =>
      rw [execute_next (.inl rfl), Part.run, copies] at runs
      obtain ⟨behind, patches⟩ := reached
      have later : ∀ patch ∈ behind, HarmlessPatch run patch := by
        intro patch member
        have listed : patch ∈ recipe.patches := patches ▸ List.mem_append_right _ member
        apply harmless.patches patch listed
        apply unmarked patch listed
        intro applied
        have names : recipe.patches.Nodup := sound.distinct.of_map
        rw [← patches] at names
        exact (List.nodup_append.mp names).2.2 _ applied _ member rfl
      have advanced : Advanced commands recipe whole
          ⟨some commands.remote, some tree, some (patched commands whole done)⟩ _ :=
        execute_patches sound done behind [] steps patches.symm later rfl
      rw [patches, runs] at advanced
      obtain ⟨last, within, world', ended⟩ := advanced
      constructor
      · rw [world']
        constructor
        · exact fun _ found => (Option.some.inj found).symm
        · exact fun _ found => Option.some.inj found ▸ below
        · exact fun _ found => ⟨last, within, (Option.some.inj found).symm⟩
      · intro all
        rw [world', ended all]

/-- A harmless run leaves what can be resumed, and the whole source if it reaches its end. -/
theorem prepare_harmless (sound : Sound commands recipe whole) (prepared : Prepared commands recipe whole world)
    (harmless : Harmless commands recipe whole run world) :
    Prepared commands recipe whole (prepare commands recipe run world).1 ∧
      ((prepare commands recipe run world).2 = true →
        (prepare commands recipe run world).1.source = some (patched commands whole recipe.patches)) := by
  rw [prepare, Recipe.parts]
  cases run.steps with
  | zero => exact ⟨prepared, fun ended => nomatch ended⟩
  | succ steps =>
    obtain got | ⟨failed, errexit⟩ := prepared.download harmless
    · rw [execute_next (.inl (by rw [Part.run, got])), Part.run, got]
      exact execute_unpack sound prepared harmless steps _ rfl
    · rw [execute_stop (by rw [Part.run, failed]) errexit, Part.run, failed]
      exact ⟨prepared, fun ended => nomatch ended⟩

theorem Prepared.empty (commands : Commands) (recipe : Recipe) (whole : Tree) :
    Prepared commands recipe whole .empty :=
  ⟨fun _ found => (nomatch found), fun _ found => (nomatch found), fun _ found => (nomatch found)⟩

theorem session_prepared (sound : Sound commands recipe whole) (runs : List Run) (last : Run) (world : World)
    (prepared : Prepared commands recipe whole world)
    (harmless : HarmlessSession commands recipe whole (runs ++ [last]) world) :
    Prepared commands recipe whole (session commands recipe runs world) ∧
      Harmless commands recipe whole last (session commands recipe runs world) := by
  induction runs generalizing world with
  | nil => exact ⟨prepared, harmless.1⟩
  | cons run runs hypothesis =>
    exact hypothesis _ (prepare_harmless sound prepared harmless.1).1 harmless.2

theorem harmless_uninterrupted (commands : Commands) (recipe : Recipe) (whole : Tree) (world : World) :
    Harmless commands recipe whole recipe.uninterrupted world where
  download _ fails := absurd rfl fails
  unpack _ _ fails := nomatch fails
  copy _ _ fails := nomatch fails
  patches _ _ _ := ⟨fun _ fails => (nomatch fails), fun _ _ fails => (nomatch fails)⟩

theorem uninterrupted_patches (sound : Sound commands recipe whole) (behind done : List Patch) (world : World)
    (patches : recipe.patches = done ++ behind) (source : world.source = some (patched commands whole done)) :
    execute commands recipe recipe.uninterrupted behind.length (behind.map .patchtree) world =
      ({ world with source := some (patched commands whole recipe.patches) }, true) := by
  induction behind generalizing done world with
  | nil =>
    rw [List.append_nil] at patches
    rw [patches, ← source]
    rfl
  | cons patch behind hypothesis =>
    have applies : botbrew_patchtree commands recipe.uninterrupted patch world =
        ({ world with source := some (patched commands whole (done ++ [patch])) }, true) := by
      simp only [botbrew_patchtree, source, sound.next_unmarked patches, patched_snoc]
      rfl
    rw [List.length_cons, List.map_cons, execute_next (.inl (by rw [Part.run, applies])), Part.run, applies]
    exact hypothesis (done ++ [patch]) _ (by simp [patches]) rfl

/-- The uninterrupted run makes the whole archive with every patch applied once. -/
theorem uninterrupted_source (sound : Sound commands recipe whole) :
    (prepare commands recipe recipe.uninterrupted .empty).1.source =
      some (patched commands whole recipe.patches) := by
  obtain ⟨known, found, below⟩ := sound.archive
  have unpacks : (botbrew_unpack commands recipe recipe.uninterrupted ⟨some commands.remote, none, none⟩).1 =
      ⟨some commands.remote, some (commands.extract known commands.remote), none⟩ := by
    simp only [botbrew_unpack, found]
    rfl
  have copies : (botbrew_copytree recipe recipe.uninterrupted
      ⟨some commands.remote, some (commands.extract known commands.remote), none⟩).1 =
      ⟨some commands.remote, some (commands.extract known commands.remote), some whole⟩ := by
    simp only [botbrew_copytree, Option.bind_some, below, sound.visible_eq]
    rfl
  have steps : recipe.uninterrupted.steps = recipe.patches.length + 1 + 1 + 1 := by
    simp [Recipe.uninterrupted, Recipe.parts]
  rw [prepare, steps, Recipe.parts, execute_next (.inl rfl), Part.run,
    execute_next (.inl rfl), Part.run, execute_next (.inl rfl), Part.run]
  have patches := uninterrupted_patches sound recipe.patches []
    ⟨some commands.remote, some (commands.extract known commands.remote), some whole⟩ rfl rfl
  rw [← copies, ← unpacks] at patches
  exact congrArg (fun result => result.1.source) patches

/-- After any harmless runs, one that reaches the end leaves the source of an uninterrupted
run: the whole archive with every patch applied once. -/
theorem source_resumed (commands : Commands) (recipe : Recipe) (whole : Tree) (runs : List Run) (last : Run)
    (sound : Sound commands recipe whole)
    (harmless : HarmlessSession commands recipe whole (runs ++ [last]) .empty)
    (reached : (prepare commands recipe last (session commands recipe runs .empty)).2 = true) :
    (prepare commands recipe last (session commands recipe runs .empty)).1.source =
        (prepare commands recipe recipe.uninterrupted .empty).1.source ∧
      (prepare commands recipe last (session commands recipe runs .empty)).1.source =
        some (patched commands whole recipe.patches) := by
  obtain ⟨prepared, lastHarmless⟩ := session_prepared sound runs last .empty (.empty ..) harmless
  have source := (prepare_harmless sound prepared lastHarmless).2 reached
  exact ⟨source.trans (uninterrupted_source sound).symm, source⟩

/-! ## An archive of two files, and one beside the source directory -/

def twoFilesTree : Tree := fun path =>
  if path = [] ∨ path = ["a".toList] then some .directory
  else if path = ["a".toList, "x".toList] ∨ path = ["a".toList, "y".toList] ∨ path = ["notes".toList] then
    some (.file [])
  else none

def twoFiles : Commands where
  remote := "archive".toList
  extract _ _ := twoFilesTree
  patch _ tree := tree.write ["x".toList] (some (.file "patched".toList))

def twoFilesRecipe : Recipe := ⟨"a.tgz".toList, ["a".toList], [⟨"fix".toList, "diff".toList⟩]⟩

def twoFilesWhole : Tree := fun path => twoFilesTree ("a".toList :: path)

def offline : Run := { twoFilesRecipe.uninterrupted with wget := some [] }

/-- `tar` fails with the source directory unpacked, and `patch` fails at once. -/
def unfinished : Run :=
  { twoFilesRecipe.uninterrupted with
    unpack := some (twoFilesTree.write ["notes".toList] none)
    patch := fun _ => some id }

def torn : Run :=
  { twoFilesRecipe.uninterrupted with unpack := some (twoFilesTree.write ["a".toList, "y".toList] none) }

theorem twoFiles_sound : Sound twoFiles twoFilesRecipe twoFilesWhole where
  archive := ⟨.tar 'z', by decide +kernel, rfl⟩
  directory := rfl
  visible := by
    intro name path hidden
    have x : name ≠ "x".toList := by rintro rfl; exact absurd hidden (by decide)
    have y : name ≠ "y".toList := by rintro rfl; exact absurd hidden (by decide)
    have first : ¬("a".toList :: name :: path = [] ∨ "a".toList :: name :: path = ["a".toList]) := by simp
    have second : ¬("a".toList :: name :: path = ["a".toList, "x".toList] ∨
        "a".toList :: name :: path = ["a".toList, "y".toList] ∨ "a".toList :: name :: path = ["notes".toList]) := by
      intro found
      obtain found | found | found := found
      · exact x (List.cons.inj (List.cons.inj found).2).1
      · exact y (List.cons.inj (List.cons.inj found).2).1
      · exact absurd (List.cons.inj found).1 (by decide)
    rw [twoFilesWhole, twoFilesTree, if_neg first, if_neg second]
  distinct := by decide
  markers := by
    intro patch _ other listed tree
    obtain rfl := List.mem_singleton.mp listed
    have different : (⟨"fix".toList, "diff".toList⟩ : Patch).marker ≠ ["x".toList] := by decide
    simp only [twoFiles, Tree.write_other different]

/-- The run after two that fail finds an archive that is unpacked in part. -/
theorem source_resumed_unfinished :
    (session twoFiles twoFilesRecipe [offline, unfinished] .empty).unpacked.bind (· ["notes".toList]) = none ∧
      (session twoFiles twoFilesRecipe [offline, unfinished] .empty).source = some twoFilesWhole ∧
      (prepare twoFiles twoFilesRecipe twoFilesRecipe.uninterrupted
        (session twoFiles twoFilesRecipe [offline, unfinished] .empty)).1.source =
        (prepare twoFiles twoFilesRecipe twoFilesRecipe.uninterrupted .empty).1.source ∧
      (prepare twoFiles twoFilesRecipe twoFilesRecipe.uninterrupted
        (session twoFiles twoFilesRecipe [offline, unfinished] .empty)).1.source =
        some (patched twoFiles twoFilesWhole twoFilesRecipe.patches) := by
  have below : (twoFilesTree.write ["notes".toList] none).below ["a".toList] = some twoFilesWhole := by
    rw [Tree.below, if_pos (.inr (by decide +kernel))]
    rfl
  have copied : (session twoFiles twoFilesRecipe [offline, unfinished] .empty).source = some twoFilesWhole := by
    show ((twoFilesTree.write ["notes".toList] none).below ["a".toList]).map Tree.visible = some twoFilesWhole
    rw [below, Option.map_some, twoFiles_sound.visible_eq]
  refine ⟨by decide +kernel, copied, ?_⟩
  apply source_resumed twoFiles twoFilesRecipe twoFilesWhole [offline, unfinished]
    twoFilesRecipe.uninterrupted twoFiles_sound
  · refine ⟨?_, ?_, harmless_uninterrupted .., trivial⟩
    · constructor
      · exact fun _ _ => rfl
      · exact fun _ _ fails => nomatch fails
      · exact fun _ _ fails => nomatch fails
      · exact fun _ _ _ => ⟨fun _ fails => (nomatch fails), fun _ _ fails => (nomatch fails)⟩
    · constructor
      · exact fun _ _ => rfl
      · intro left _ fails
        cases fails
        exact below
      · exact fun _ _ fails => nomatch fails
      · intro patch _ _
        constructor
        · intro damage fails
          cases fails
          exact ⟨rfl, fun _ => rfl⟩
        · exact fun works => nomatch works
  · decide +kernel

/-- The directory that `tar` left is taken for the whole archive. -/
theorem source_torn :
    (prepare twoFiles twoFilesRecipe twoFilesRecipe.uninterrupted
        (session twoFiles twoFilesRecipe [torn] .empty)).2 = true ∧
      (prepare twoFiles twoFilesRecipe twoFilesRecipe.uninterrupted
        (session twoFiles twoFilesRecipe [torn] .empty)).1.source ≠
        (prepare twoFiles twoFilesRecipe twoFilesRecipe.uninterrupted .empty).1.source := by
  constructor
  · decide +kernel
  · intro same
    have lost : (prepare twoFiles twoFilesRecipe twoFilesRecipe.uninterrupted
        (session twoFiles twoFilesRecipe [torn] .empty)).1.source.bind (· ["y".toList]) = none := by
      decide +kernel
    have kept : (prepare twoFiles twoFilesRecipe twoFilesRecipe.uninterrupted .empty).1.source.bind
        (· ["y".toList]) = some (.file []) := by
      decide +kernel
    rw [same, kept] at lost
    cases lost

end BotBrew.Preparation
