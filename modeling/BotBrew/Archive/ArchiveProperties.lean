import BotBrew.Archive.FsConfigProperties
import BotBrew.Archive.MkbootfsProperties
import BotBrew.Archive.TreeProperties

/-! The archive of a directory: its members, their order, and the ids they set. -/

set_option autoImplicit false

namespace BotBrew.Archive.Mkbootfs

open Words

variable {output : Output} {events events' : List Event} {opendir opendir' : List Byte → Option Forest}
  {out : CString} {ino : Word}

/-! ## The archive does not depend on anything that cannot be seen -/

theorem _eject_congr {mode mode' : Word} {place : CString} (same : fix_stat place.bytes mode = fix_stat place.bytes mode')
    (output : Output) (data : List Byte) : _eject output mode place data = _eject output mode' place data := by
  rw [_eject, _eject, same]

theorem run_fixed (same : events.map Event.fixed = events'.map Event.fixed) (output : Output) :
    run output events = run output events' := by
  induction events generalizing events' output with
  | nil =>
    obtain rfl := List.map_eq_nil_iff.mp same.symm
    rfl
  | cons event events hypothesis =>
    obtain ⟨event', events', rfl⟩ := List.exists_cons_of_ne_nil
      (show events' ≠ [] by rintro rfl; exact absurd same (List.cons_ne_nil _ _))
    rw [List.map_cons, List.map_cons, List.cons.injEq] at same
    obtain ⟨first, rest⟩ := same
    cases event with
    | die why =>
      cases event' with
      | die why' => cases first; rfl
      | eject => cases first
    | eject mode place data =>
      cases event' with
      | die => cases first
      | eject mode' place' data' =>
        rw [Event.fixed, Event.fixed, Event.eject.injEq] at first
        obtain ⟨modes, rfl, rfl⟩ := first
        rw [run, run, _eject_congr modes]
        split
        · exact hypothesis rest _
        · rfl

/-- Two directories with the same visible files. In neither of them has a directory two entries with one name. -/
structure SameDirectory (forest other : Forest) : Prop where
  distinct : (forest.toList.map Prod.fst).Nodup
  other_distinct : (other.toList.map Prod.fst).Nodup
  proper : forest.Proper
  other_proper : other.Proper
  same : forest.Same other

theorem archive_fixed (same : ∀ start, Option.Rel SameDirectory (opendir start) (opendir' start)) (arg : CString) :
    (archive opendir arg).map Event.fixed = (archive opendir' arg).map Event.fixed := by
  have directories := same (split arg).1
  rw [archive, archive]
  cases opened : opendir (split arg).1 with
  | none =>
    cases opened' : opendir' (split arg).1 with
    | none => rfl
    | some other => rw [opened, opened'] at directories; cases directories
  | some forest =>
    cases opened' : opendir' (split arg).1 with
    | none => rw [opened, opened'] at directories; cases directories
    | some other =>
      rw [opened, opened'] at directories
      cases directories with
      | some pair =>
        exact entries_same pair.distinct pair.other_distinct pair.same fun listed listed' same_tree =>
          listed_same forest pair.proper listed (Forest.Proper.listed pair.other_proper listed') same_tree

/-- The output is a function of the files that can be seen: neither the order in which a directory lists its entries, nor
the permissions of a file, nor anything below a hidden name changes a byte of it. -/
theorem main_visible (same : ∀ start, Option.Rel SameDirectory (opendir start) (opendir' start)) (argv : List CString) :
    main opendir argv = main opendir' argv := by
  have all : (argv.flatMap (archive opendir)).map Event.fixed = (argv.flatMap (archive opendir')).map Event.fixed := by
    rw [List.map_flatMap, List.map_flatMap]
    exact congrArg (fun events => argv.flatMap events) (funext fun arg => archive_fixed same arg)
  rw [main, main, run_fixed all]

/-- A file, and beside it a hidden one -/
def smallDirectory (permissions : BitVec 12) (hidden : Tree) : Forest :=
  .cons ⟨ascii ".x", by decide⟩ hidden (.cons ⟨ascii "a", by decide⟩ (.regular permissions [1]) .nil)

theorem smallDirectory_shows {permissions : BitVec 12} {hidden tree : Tree} {names : List CString} :
    (smallDirectory permissions hidden).Shows names tree ↔
      names = [⟨ascii "a", by decide⟩] ∧ tree = .regular permissions [1] := by
  constructor
  · intro shows
    cases shows with
    | here shown => exact absurd shown (by decide)
    | inside shown => exact absurd shown (by decide)
    | later shows_rest =>
      cases shows_rest with
      | here shown => exact ⟨rfl, rfl⟩
      | later shows_none => cases shows_none
  · rintro ⟨rfl, rfl⟩
    exact .later (.here (by decide))

theorem main_visible_small : main (fun _ => some (smallDirectory 0o644 (.trouble .stat))) [⟨ascii "d", by decide⟩] =
    main (fun _ => some (smallDirectory 0o600 (.directory 0o755 .nil))) [⟨ascii "d", by decide⟩] := by
  have first : (smallDirectory 0o644 (.trouble .stat)).Proper := by simp [smallDirectory, Forest.Proper, Tree.Proper]
  have second : (smallDirectory 0o600 (.directory 0o755 .nil)).Proper := by
    simp [smallDirectory, Forest.Proper, Tree.Proper, Forest.toList]
  refine main_visible (fun _ => .some ⟨by decide, by decide, first, second, ?_⟩) _
  · intro names node
    simp only [smallDirectory_shows]
    constructor
    · rintro ⟨tree, ⟨rfl, rfl⟩, rfl⟩
      exact ⟨_, ⟨rfl, rfl⟩, rfl⟩
    · rintro ⟨tree, ⟨rfl, rfl⟩, rfl⟩
      exact ⟨_, ⟨rfl, rfl⟩, rfl⟩

/-! ## The archive has the files that can be seen -/

theorem mem_membersOf {mode : Word} {place : CString} {data : List Byte} :
    (∃ member ∈ membersOf ino events, member.mode = mode ∧ member.name = place ∧ member.data = data) ↔
      .eject mode place data ∈ events.map Event.fixed := by
  induction events generalizing ino with
  | nil => simp [membersOf]
  | cons event events hypothesis =>
    cases event with
    | die why =>
      rw [membersOf, List.map_cons, Event.fixed, List.mem_cons, hypothesis]
      exact ⟨Or.inr, fun found => found.resolve_left Event.noConfusion⟩
    | eject mode' place' data' =>
      rw [membersOf, List.map_cons, Event.fixed, List.mem_cons, ← @hypothesis (ino + 1), List.exists_mem_cons_iff,
        Event.eject.injEq, member]
      refine or_congr_left ⟨fun same => ?_, fun same => ?_⟩
      · obtain ⟨rfl, rfl, rfl⟩ := same
        exact ⟨rfl, rfl, rfl⟩
      · obtain ⟨rfl, rfl, rfl⟩ := same
        exact ⟨rfl, rfl, rfl⟩

/-- No rule changes the type of a file. -/
theorem config_mode (path : List Byte) (dir : Bool) : (config path dir).mode &&& 0o170000 = 0 := by
  have tables : ∀ pc ∈ android_dirs ++ android_files, pc.mode &&& 0o170000 = 0 := by decide
  rw [config]
  cases found : (if dir then android_dirs else android_files).find? fun pc => pc.stops path dir with
  | none => cases dir <;> rfl
  | some pc =>
    have listed := List.mem_of_find?_eq_some found
    apply tables
    rw [List.mem_append]
    cases dir
    · exact Or.inr listed
    · exact Or.inl listed

theorem fix_stat_type (path : List Byte) (mode : Word) : fix_stat path mode &&& 0o170000 = mode &&& 0o170000 := by
  have apart : ∀ bit < 32, (0o170000 : Word).getLsbD bit = true → (~~~(0o7777 : Word)).getLsbD bit = true := by decide
  apply BitVec.eq_of_getLsbD_eq
  intro bit inside
  have rule : ((config path (S_ISDIR mode)).mode &&& 0o170000).getLsbD bit = false := by
    rw [config_mode]
    exact BitVec.getLsbD_zero
  rw [BitVec.getLsbD_and] at rule
  rw [fix_stat, fs_config, BitVec.getLsbD_and, BitVec.getLsbD_and, BitVec.getLsbD_or, BitVec.getLsbD_and]
  cases type : (0o170000 : Word).getLsbD bit with
  | false => rw [Bool.and_false, Bool.and_false]
  | true =>
    rw [type, Bool.and_true] at rule
    rw [apart bit inside type, rule, Bool.and_true, Bool.or_false, Bool.and_true]

theorem S_ISDIR_fix_stat (path : List Byte) (permissions : BitVec 12) :
    S_ISDIR (fix_stat path (modeOf S_IFDIR permissions)) = true := by
  rw [S_ISDIR, fix_stat_type, modeOf_mask _ permissions (by decide)]
  decide

theorem Ordered.members {written : List Event} {done : List Member} (ordered : Ordered out written events)
    (known : ∀ permissions parent, .eject (modeOf S_IFDIR permissions) parent [] ∈ written →
      ∃ directory ∈ done, directory.name = parent ∧ S_ISDIR directory.mode = true) {before after : List Member}
    {found : Member} (split : membersOf ino events = before ++ found :: after) :
    ∃ parent name, found.name = join parent name ∧
      (parent = out ∨ ∃ directory ∈ done ++ before, directory.name = parent ∧ S_ISDIR directory.mode = true) := by
  induction events generalizing written done before ino with
  | nil => cases before <;> cases split
  | cons event events hypothesis =>
    cases event with
    | die why =>
      refine hypothesis ordered.2 (fun permissions parent listed => ?_) split
      exact known permissions parent (by simpa using listed)
    | eject mode place data =>
      rw [membersOf] at split
      cases before with
      | nil =>
        rw [List.nil_append, List.cons.injEq] at split
        obtain ⟨rfl, _⟩ := split
        obtain ⟨parent, name, joined, known_parent⟩ := ordered.1 mode place data rfl
        refine ⟨parent, name, joined, known_parent.imp_right ?_⟩
        rintro ⟨permissions, listed⟩
        rw [List.append_nil]
        exact known permissions parent listed
      | cons first before =>
        rw [List.cons_append, List.cons.injEq] at split
        obtain ⟨rfl, rest⟩ := split
        have more : ∀ permissions parent,
            .eject (modeOf S_IFDIR permissions) parent [] ∈ .eject mode place data :: written → ∃ directory ∈ done ++ [member ino mode place data],
              directory.name = parent ∧ S_ISDIR directory.mode = true := by
          intro permissions parent listed
          rcases List.mem_cons.mp listed with same | earlier
          · cases same
            exact ⟨_, List.mem_append_right _ (List.mem_singleton_self _), rfl, S_ISDIR_fix_stat _ permissions⟩
          · obtain ⟨directory, listed_directory, named⟩ := known permissions parent earlier
            exact ⟨directory, List.mem_append_left _ listed_directory, named⟩
        obtain ⟨parent, name, joined, known_parent⟩ := hypothesis ordered.2 more rest
        exact ⟨parent, name, joined, by simpa using known_parent⟩

theorem membersOf_ino : ∀ (events : List Event) (ino : Word),
    (membersOf ino events).map Member.ino =
      (List.range (membersOf ino events).length).map fun index => ino + BitVec.ofNat 32 index
  | [], _ => rfl
  | .die _ :: events, ino => membersOf_ino events ino
  | .eject mode place data :: events, ino => by
    rw [membersOf, List.map_cons, membersOf_ino events (ino + 1), List.length_cons, List.range_succ_eq_map, List.map_cons,
      List.map_map]
    refine congrArg₂ List.cons (BitVec.add_zero ino).symm (List.map_congr_left fun index _ => ?_)
    rw [Function.comp_apply, Nat.succ_eq_add_one, BitVec.ofNat_add, BitVec.add_assoc, BitVec.add_comm 1]
    rfl

theorem membersOf_names : ∀ (events : List Event) (ino : Word), (membersOf ino events).map Member.name = places events
  | [], _ => rfl
  | .die _ :: events, ino => membersOf_names events ino
  | .eject _ place _ :: events, ino => congrArg (List.cons place) (membersOf_names events (ino + 1))

/-- What has to hold of a directory for its archive to be read again -/
def Fitting (out : CString) (forest : Forest) : Prop :=
  ∀ names tree kind data, forest.Shows names tree → tree.node.content = some (kind, data) →
    data.length < 2 ^ 32 ∧ (names.foldl join out).bytes.length + 1 < 2 ^ 32 ∧ (names.foldl join out).bytes ≠ trailerName

/-- The archive of a directory is read as the files that can be seen in it, with their types and the permissions that
their paths have, each once. A directory is read before what is in it, and the inodes count up. -/
theorem main_reads_visible {arg : CString} {forest : Forest} (opened : opendir (split arg).1 = some forest)
    (fitting : Fitting (split arg).2 forest)
    (alive : ∀ names tree, forest.Shows names tree → tree.node.dies = false) :
    (main opendir [arg]).code = 0 ∧ 256 ∣ (main opendir [arg]).stdout.length ∧ ∃ members,
      read (main opendir [arg]).stdout = some members ∧
      (∀ mode place data, (∃ member ∈ members, member.mode = mode ∧ member.name = place ∧ member.data = data) ↔
        ∃ names tree kind, forest.Shows names tree ∧ tree.node.content = some (kind, data) ∧
          place = names.foldl join (split arg).2 ∧ mode = fix_stat place.bytes kind) ∧
      (∀ before found after, members = before ++ found :: after → ∃ parent name, found.name = join parent name ∧
        (parent = (split arg).2 ∨ ∃ directory ∈ before, directory.name = parent ∧ S_ISDIR directory.mode = true)) ∧
      members.map Member.ino = (List.range members.length).map (fun index =>
        BitVec.ofNat 32 300000 + BitVec.ofNat 32 index) ∧
      (forest.Real → (members.map Member.name).Nodup) := by
  have walk : [arg].flatMap (archive opendir) = _archive_dir (split arg).1 (split arg).2 forest := by
    rw [List.flatMap_singleton, archive, opened]
  have visible : ∀ mode place data, (∃ member ∈ membersOf Output.initial.next_inode (_archive_dir (split arg).1
      (split arg).2 forest), member.mode = mode ∧ member.name = place ∧ member.data = data) ↔
        ∃ names tree kind, forest.Shows names tree ∧ tree.node.content = some (kind, data) ∧
          place = names.foldl join (split arg).2 ∧ mode = fix_stat place.bytes kind :=
    fun mode place data => mem_membersOf.trans eject_archive_dir
  have each : ∀ member ∈ membersOf Output.initial.next_inode (_archive_dir (split arg).1 (split arg).2 forest),
      member.Fits ∧ member.name.bytes ≠ trailerName := by
    intro member listed
    obtain ⟨names, tree, kind, shows, content, place, _⟩ := (visible _ _ _).mp ⟨member, listed, rfl, rfl, rfl⟩
    obtain ⟨data_fits, name_fits, ordinary⟩ := fitting names tree kind member.data shows content
    rw [← place] at name_fits ordinary
    exact ⟨⟨data_fits, name_fits⟩, ordinary⟩
  have ended : (main opendir [arg]).code = 0 :=
    main_alive (List.cons_ne_nil _ _) (by rw [walk]; exact alive_archive_dir.mpr alive)
  obtain ⟨whole, members⟩ := main_holds ended (by rw [walk]; exact fun member listed => (each member listed).1)
  rw [walk, List.takeWhile_eq_self_iff.mpr fun member listed => decide_eq_true (each member listed).2] at members
  have once (real : forest.Real) : ((membersOf Output.initial.next_inode
      (_archive_dir (split arg).1 (split arg).2 forest)).map Member.name).Nodup := by
    rw [membersOf_names]
    exact archive_dir_distinct real
  refine ⟨ended, whole, _, members, visible, ?_, membersOf_ino _ _, once⟩
  intro before found after place
  have ordered : Ordered (split arg).2 [] (_archive_dir (split arg).1 (split arg).2 forest) :=
    Ordered.inOrder (entries_ordered forest)
  have parents := @Ordered.members _ _ _ _ [] ordered (fun _ _ listed => absurd listed List.not_mem_nil) _ _ _ place
  simpa using parents

theorem smallDirectory_real (permissions : BitVec 12) (why : Trouble) :
    (smallDirectory permissions (.trouble why)).Real where
  distinct := by
    show [(⟨ascii ".x", by decide⟩ : CString), ⟨ascii "a", by decide⟩].Nodup
    decide
  proper := by simp [smallDirectory, Forest.Proper, Tree.Proper]
  named := by
    have names : ((ascii ".x" ≠ [] ∧ 47 ∉ ascii ".x") ∧ ascii "a" ≠ [] ∧ 47 ∉ ascii "a") := by decide
    simpa [smallDirectory, Forest.Named, Tree.Named] using names

theorem main_reads_visible_small : ∃ members,
    read (main (fun _ => some (smallDirectory 0o644 (.trouble .stat))) [⟨ascii "d=e", by decide⟩]).stdout = some members ∧
      (∃ found ∈ members, found.name.bytes = ascii "e/a" ∧ found.data = [1]) ∧ (members.map Member.name).Nodup := by
  have fitting : Fitting (split ⟨ascii "d=e", by decide⟩).2 (smallDirectory 0o644 (.trouble .stat)) := by
    intro names tree kind data shows content
    obtain ⟨rfl, rfl⟩ := smallDirectory_shows.mp shows
    cases content
    decide
  have alive : ∀ names tree, (smallDirectory 0o644 (.trouble .stat)).Shows names tree → tree.node.dies = false := by
    intro names tree shows
    obtain ⟨rfl, rfl⟩ := smallDirectory_shows.mp shows
    rfl
  obtain ⟨_, _, members, was_read, visible, _, _, once⟩ :=
    @main_reads_visible (fun _ => some (smallDirectory 0o644 (.trouble .stat))) _ _ rfl fitting alive
  refine ⟨members, was_read, ?_, once (smallDirectory_real _ _)⟩
  obtain ⟨found, listed, _, named, same_data⟩ := (visible (fix_stat (ascii "e/a") S_IFREG) _ [1]).mpr
    ⟨_, _, _, smallDirectory_shows.mpr ⟨rfl, rfl⟩, rfl, rfl, rfl⟩
  exact ⟨found, listed, by rw [named]; decide, same_data⟩

/-! ## Who may run as somebody else -/

theorem fix_stat_setid (path : List Byte) (mode : Word) : fix_stat path mode &&& SETID ≠ 0 ↔
    S_ISDIR (fix_stat path mode) = false ∧ path ∈ setidFiles := by
  rw [fix_stat, fs_config_setid, ← fix_stat, S_ISDIR, S_ISDIR, fix_stat_type]

/-- The events of a walk have sizes that fit the numbers of a header. -/
def Small (events : List Event) : Prop :=
  ∀ mode out data, .eject mode out data ∈ events → data.length < 2 ^ 32 ∧ out.bytes.length + 1 < 2 ^ 32

theorem Small.fits : ∀ {events : List Event}, Small events → ∀ {ino : Word}, ∀ found ∈ membersOf ino events, found.Fits
  | [], _, _, _, listed => absurd listed List.not_mem_nil
  | .die _ :: events, small, _, found, listed =>
    Small.fits (fun mode out data later => small mode out data (List.mem_cons_of_mem _ later)) found listed
  | .eject mode out data :: events, small, ino, found, listed => by
    rw [membersOf, List.mem_cons] at listed
    rcases listed with rfl | rest
    · exact ⟨(small mode out data List.mem_cons_self).1, (small mode out data List.mem_cons_self).2⟩
    · exact Small.fits (fun mode out data later => small mode out data (List.mem_cons_of_mem _ later)) found rest

/-- Whatever the permissions in the directories are, a file of an archive sets an id just if its path is one of those that
are meant to. -/
theorem main_setid {argv : List CString} (ended : (main opendir argv).code = 0)
    (small : Small (argv.flatMap (archive opendir))) {members : List Member}
    (was_read : read (main opendir argv).stdout = some members) {found : Member} (listed : found ∈ members) :
    found.mode &&& SETID ≠ 0 ↔ S_ISDIR found.mode = false ∧ found.name.bytes ∈ setidFiles := by
  obtain ⟨_, holds⟩ := main_holds ended small.fits
  obtain rfl := Option.some.inj (holds.symm.trans was_read)
  have written := mem_membersOf.mp ⟨found, (List.takeWhile_sublist _).mem listed, rfl, rfl, rfl⟩
  obtain ⟨event, _, same⟩ := List.mem_map.mp written
  cases event with
  | die why => cases same
  | eject mode out data =>
    rw [Event.fixed, Event.eject.injEq] at same
    obtain ⟨fixed, named, _⟩ := same
    rw [← fixed, ← named]
    exact fix_stat_setid out.bytes mode

/-- A file that sets ids -/
def pingDirectory : Forest := .cons ⟨ascii "ping", by decide⟩ (.regular 0o6755 [1]) .nil

/-- The two places at which the file is archived -/
def pingPlaces : List CString := [⟨ascii "d=system/bin", by decide⟩, ⟨ascii "d=bin", by decide⟩]

theorem main_setid_ping : ∃ first second,
    read (main (fun _ => some pingDirectory) pingPlaces).stdout = some [first, second] ∧
      first.name.bytes = ascii "system/bin/ping" ∧ first.mode &&& SETID ≠ 0 ∧
      second.name.bytes = ascii "bin/ping" ∧ second.mode &&& SETID = 0 := by
  let opendir : List Byte → Option Forest := fun _ => some pingDirectory
  let file (out : CString) : Event := .eject (modeOf S_IFREG 0o6755) out [1]
  have single : ∀ name out : CString, inOrder [(name, [file out])] = [file out] := by
    intro name out
    rw [inOrder, List.mergeSort_singleton, List.flatMap_singleton]
  have walk : pingPlaces.flatMap (archive opendir) =
      [file ⟨ascii "system/bin/ping", by decide⟩, file ⟨ascii "bin/ping", by decide⟩] := by
    show inOrder [(⟨ascii "ping", by decide⟩, [file ⟨ascii "system/bin/ping", by decide⟩])] ++
      (inOrder [(⟨ascii "ping", by decide⟩, [file ⟨ascii "bin/ping", by decide⟩])] ++ []) = _
    rw [single, single]
    rfl
  have small : Small (pingPlaces.flatMap (archive opendir)) := by
    rw [walk]
    intro mode out data written
    rcases List.mem_pair.mp written with same | same <;> cases same <;> decide
  have ended : (main opendir pingPlaces).code = 0 :=
    main_alive (List.cons_ne_nil _ _) (by rw [walk]; decide)
  obtain ⟨_, was_read⟩ := main_holds ended small.fits
  rw [walk] at was_read
  refine ⟨_, _, was_read, rfl, ?_, rfl, ?_⟩
  · exact (main_setid ended small was_read List.mem_cons_self).mpr ⟨by decide, by decide⟩
  · refine not_not.mp fun sets => ?_
    obtain ⟨_, named⟩ := (main_setid ended small was_read (List.mem_cons_of_mem _ List.mem_cons_self)).mp sets
    exact absurd named (by decide)

end BotBrew.Archive.Mkbootfs
