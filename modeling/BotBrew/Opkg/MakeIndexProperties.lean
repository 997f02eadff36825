import BotBrew.Opkg.MakeIndex
import BotBrew.Opkg.RereadProperties

/-! A run of `opkg-make-index -p` that starts from an old index. -/

set_option autoImplicit false

namespace BotBrew.Opkg

open Text Dictionary

/-! ## The stamps -/

/-- A name as `opkg-build` gives it -/
def Unspaced (name : Text) : Prop := name ≠ [] ∧ ∀ char ∈ name, isSpace char = false

theorem digit_visible {char : Char} (digit : char.isDigit = true) : isSpace char = false :=
  alphanum_visible (by simp [Char.isAlphanum, digit])

theorem readStamp_stampLine {name : Text} (unspaced : Unspaced name) (seconds : ℕ) :
    readStamp (stampLine name seconds) = some (name, seconds) := by
  obtain ⟨nonempty, visible⟩ := unspaced
  have digits := decimal_digits seconds
  have shown : strip (stampLine name seconds) = decimal seconds ++ ' ' :: name := by
    obtain ⟨front, last, rfl⟩ := List.eq_nil_or_concat' name |>.resolve_left nonempty
    have seen : ¬ isSpace last = true := by simp [visible last]
    have right : rstrip (stampLine (front ++ [last]) seconds) = decimal seconds ++ ' ' :: (front ++ [last]) := by
      have whole : stampLine (front ++ [last]) seconds =
          ((decimal seconds ++ ' ' :: front) ++ [last]) ++ ['\n'] := by simp [stampLine]
      rw [whole, rstrip_concat_blank (by decide), rstrip_concat_visible seen]
      simp
    rw [strip, right]
    cases number : decimal seconds with
    | nil => exact absurd number Nat.toDigits_ne_nil
    | cons digit rest =>
      have seen := digit_visible (digits digit (number ▸ List.mem_cons_self))
      exact List.dropWhile_cons_of_neg (by simp [seen])
  have before : ∀ char ∈ decimal seconds, decide (char ≠ ' ') = true := by
    intro char member
    have digit := digits char member
    simp only [decide_eq_true_eq]
    intro same
    subst same
    exact absurd digit (by decide)
  rw [readStamp, shown]
  simp only [List.takeWhile_append_of_pos before, List.dropWhile_append_of_pos before]
  simp [List.all_eq_true.mpr digits, int_decimal]

theorem readlines_stamps {names : List Text} (unspaced : ∀ name ∈ names, Unspaced name) (seconds : Text → ℕ) :
    readlines (names.flatMap fun name => stampLine name (seconds name)) =
      names.map fun name => stampLine name (seconds name) := by
  have free : ∀ line ∈ names.map fun name => decimal (seconds name) ++ ' ' :: name, '\n' ∉ line := by
    intro line member newline
    obtain ⟨name, inNames, rfl⟩ := List.mem_map.mp member
    have seen : isSpace '\n' = false := by
      rw [List.mem_append, List.mem_cons] at newline
      rcases newline with digit | space | char
      · exact digit_visible (decimal_digits _ _ digit)
      · cases space
      · exact (unspaced name inNames).2 _ char
    exact absurd seen (by decide)
  have lines := readlines_lines free []
  simpa [stampLine, List.flatMap_map, Function.comp_def, readlines] using lines

/-- The stamps are read as they were written. -/
theorem readStamps_stampsText (order : HashOrder) {stamps : Stamps} (unspaced : ∀ name ∈ stamps, Unspaced name) :
    ∃ read, readStamps (stampsText order stamps) = some read ∧
      ∀ name, read.lookup name = stamps.lookup name := by
  have keys : ∀ name, name ∈ order.keys stamps.keys ↔ name ∈ stamps := fun name =>
    ((order.perm stamps.keys).mem_iff).trans AList.mem_keys.symm
  have named : ∀ name ∈ order.keys stamps.keys, Unspaced name := fun name member => unspaced name ((keys name).mp member)
  have parsed : (readlines (stampsText order stamps)).mapM readStamp =
      some ((order.keys stamps.keys).map fun name => (name, (stamps.lookup name).getD 0)) := by
    rw [stampsText, readlines_stamps named]
    generalize order.keys stamps.keys = names at named
    induction names with
    | nil => rfl
    | cons name names hypothesis =>
      have rest := hypothesis fun other member => named other (List.mem_cons_of_mem name member)
      rw [List.map_cons, List.mapM_cons, readStamp_stampLine (named name List.mem_cons_self), rest]
      rfl
  refine ⟨_, by rw [readStamps, parsed]; rfl, fun name => ?_⟩
  cases found : stamps.lookup name with
  | none =>
    have missing : name ∉ stamps := AList.lookup_eq_none.mp found
    rw [lookup_fill_of_notMem, AList.lookup_empty]
    intro pair member same
    obtain ⟨other, inKeys, rfl⟩ := List.mem_map.mp member
    exact missing ((keys name).mp (same ▸ inKeys))
  | some seconds =>
    have present : name ∈ stamps := AList.lookup_isSome.mp (found ▸ rfl)
    refine lookup_fill_of_mem (List.mem_map.mpr ⟨name, (keys name).mpr present, by rw [found]; rfl⟩) ?_
    intro pair member same
    obtain ⟨other, -, rfl⟩ := List.mem_map.mp member
    obtain rfl : other = name := same
    exact congrArg (fun value => value.getD 0) found

/-! ## The old packages -/

/-- The packages of a dictionary have file names of their own. -/
def Packages.FileNames (packages : Packages) : Prop :=
  ∀ key pkg key' pkg', packages.lookup key = some pkg → packages.lookup key' = some pkg' →
    pkg.self "filename" = pkg'.self "filename" → key = key'

theorem lookup_old_pkg_hash (order : HashOrder) {old : Packages} (names : old.FileNames) {name : Option Text}
    {pkg : Package} :
    (old_pkg_hash order old).lookup name = some pkg ↔
      ∃ key, old.lookup key = some pkg ∧ pkg.self "filename" = name := by
  have pairs : ∀ pair : Option Text × Package, pair ∈ (order.keys old.keys).filterMap (fun key =>
      (old.lookup key).map fun pkg => (pkg.self "filename", pkg)) ↔
      ∃ key, old.lookup key = some pair.2 ∧ pair.2.self "filename" = pair.1 := by
    intro pair
    simp only [List.mem_filterMap, Option.map_eq_some_iff, (order.perm old.keys).mem_iff]
    constructor
    · intro member
      obtain ⟨key, -, found, lookup, rfl⟩ := member
      exact ⟨key, lookup, rfl⟩
    · intro known
      obtain ⟨key, lookup, named⟩ := known
      refine ⟨key, AList.mem_keys.mp (AList.lookup_isSome.mp (lookup ▸ rfl)), pair.2, lookup, ?_⟩
      rw [named]
  constructor
  · intro found
    cases lookup_fill_cases found with
    | inl member => exact (pairs _).mp member
    | inr before => cases before
  · intro known
    refine lookup_fill_of_mem ((pairs (name, pkg)).mpr known) fun other member same => ?_
    obtain ⟨key, lookup, named⟩ := known
    obtain ⟨key', lookup', named'⟩ := (pairs other).mp member
    obtain rfl := names key pkg key' other.2 lookup lookup' (by rw [named, named', same])
    rw [lookup, Option.some.injEq] at lookup'
    exact lookup'.symm

/-! ## The packages of the directory -/

/-- The package that a file has when it is read -/
def Stamped.pkg (stamped : Stamped) : Package :=
  ((Package.init stamped.file).map Prod.fst).getD Package.empty

/-- A package that `opkg-build` took, whose control file names no file, and whose stanza can be read back -/
structure Stamped.Sound (stamped : Stamped) : Prop where
  built : ∃ build : Build, build.file = stamped.file ∧ ∀ field ∈ build.fields, lower field.1 ≠ "filename".toList
  valid : stamped.pkg.Valid
  printable : stamped.pkg.Printable

namespace Stamped.Sound

variable {stamped : Stamped}

theorem init (sound : stamped.Sound) : ∃ lost, Package.init stamped.file = some (stamped.pkg, lost) := by
  obtain ⟨build, file, -⟩ := sound.built
  obtain ⟨pkg, lost, ran, -⟩ := build.init
  rw [file] at ran
  exact ⟨lost, by rw [Stamped.pkg, ran]; rfl⟩

theorem indexed (sound : stamped.Sound) : stamped.pkg.Indexed := by
  obtain ⟨build, file, -⟩ := sound.built
  obtain ⟨pkg, lost, ran, indexed, -⟩ := build.init
  rw [file] at ran
  rw [Stamped.pkg, ran]
  exact indexed

theorem filename (sound : stamped.Sound) : stamped.pkg.self "filename" = some stamped.file.basename := by
  obtain ⟨build, file, unset⟩ := sound.built
  obtain ⟨pkg, lost, ran, -, loaded⟩ :=
    init_loaded (fun _ member => build.valid.named member) build.valid.no_size build.written
  rw [file] at ran loaded
  have kept := loaded.kept "filename".toList fun field member sets => by
    obtain ⟨source, inFields, rfl⟩ := List.mem_map.mp member
    exact unset source inFields (sets.2.resolve_right (by simp))
  rw [attr_of_ne (by decide), attr_of_ne (by decide)] at kept
  rw [Stamped.pkg, ran]
  exact kept.trans rfl

end Stamped.Sound

/-- Files that `glob` finds, each of them once -/
structure Listed (stampeds : List Stamped) : Prop where
  distinct : (stampeds.map fun stamped => stamped.file.basename).Nodup
  matched : ∀ stamped ∈ stampeds, MakeIndex.matched stamped.file.basename = true
  sound : ∀ stamped ∈ stampeds, stamped.Sound

namespace Listed

variable {stampeds : List Stamped} {stamped other : Stamped}

theorem eq_of_basename (listed : Listed stampeds) (member : stamped ∈ stampeds) (member' : other ∈ stampeds)
    (same : stamped.file.basename = other.file.basename) : stamped = other :=
  List.inj_on_of_nodup_map listed.distinct member member' same

theorem eq_of_pkg (listed : Listed stampeds) (member : stamped ∈ stampeds) (member' : other ∈ stampeds)
    (same : stamped.pkg = other.pkg) : stamped = other := by
  have names := (listed.sound stamped member).filename
  rw [same, (listed.sound other member').filename, Option.some.injEq] at names
  exact listed.eq_of_basename member member' names.symm

theorem left {before after : List Stamped} (listed : Listed (before ++ after)) : Listed before where
  distinct := (List.nodup_append.mp (List.map_append ▸ listed.distinct)).1
  matched stamped member := listed.matched stamped (List.mem_append_left after member)
  sound stamped member := listed.sound stamped (List.mem_append_left after member)

end Listed

namespace MakeIndex

/-! ## The loop over the files -/

section Next

variable (options : Options) (loop : Loop) (stamped : Stamped) (pkg : Package) (fn : Option Stamped)
  (packages : Packages) (s : ℕ)

theorem next_fn (key : Text) : (loop.next options stamped pkg fn packages s).fn key =
    if s = 0 then Function.update loop.fn pkg.key fn key else loop.fn key := by
  rw [Loop.next]
  split <;> rfl

theorem next_stamps : (loop.next options stamped pkg fn packages s).stamps =
    loop.stamps.insert stamped.file.basename stamped.seconds := rfl

theorem next_surplus : (loop.next options stamped pkg fn packages s).surplus =
    loop.surplus ++ superfluous (old_filename loop.packages pkg) stamped.file.basename s := rfl

end Next

theorem rename_here_of_ne {area : Area} {name moved : Text} (other : name ≠ moved) :
    (area.rename moved).here name = area.here name := by
  unfold Area.rename
  split
  · rfl
  · exact Function.update_of_ne other ..

theorem to_morgue_here_of_ne {area : Area} {name moved : Text} (other : name ≠ moved)
    (unsigned : name ≠ moved ++ ".asc".toList) : (area.to_morgue moved).here name = area.here name := by
  rw [Area.to_morgue, rename_here_of_ne unsigned, rename_here_of_ne other]

theorem surplus_here_of_notMem {surplus : List Text} {area : Area} {name : Text}
    (other : ∀ moved ∈ surplus, name ≠ moved ∧ name ≠ moved ++ ".asc".toList) :
    (surplus.foldl Area.to_morgue area).here name = area.here name := by
  induction surplus generalizing area with
  | nil => rfl
  | cons moved surplus hypothesis =>
    obtain ⟨apart, unsigned⟩ := other moved List.mem_cons_self
    rw [List.foldl_cons, hypothesis fun later member => other later (List.mem_cons_of_mem moved member),
      to_morgue_here_of_ne apart unsigned]

/-- The name of a package is not that of a signature. -/
theorem matched_unsigned {name : Text} (isMatched : matched name = true) (moved : Text) :
    name ≠ moved ++ ".asc".toList := by
  intro same
  subst same
  simp only [matched, Bool.and_eq_true, List.any_cons, List.any_nil, Bool.or_false, Bool.or_eq_true,
    List.isSuffixOf_iff_suffix] at isMatched
  have last : ∀ {ending : Text}, ending <:+ moved ++ ".asc".toList → ending ≠ [] → ending.getLast? = some 'c' := by
    intro ending suffix nonempty
    obtain ⟨front, shape⟩ := suffix
    have ends := congrArg List.getLast? shape
    rw [List.getLast?_append_of_ne_nil _ nonempty, List.getLast?_append_of_ne_nil _ (by decide)] at ends
    exact ends.trans rfl
  rcases isMatched.2 with suffix | suffix | suffix
  · exact absurd (last suffix (by decide)) (by decide)
  · exact absurd (last suffix (by decide)) (by decide)
  · exact absurd (last suffix (by decide)) (by decide)

section Loop

variable (options : Options) (old : AList fun _ : Option Text => Package) (stamps : Stamps) (area : Area)
  (target : Stamped → Stamped)

/-- What a run takes for the files: packages that no index tells apart from those of the targets -/
structure Chosen (stampeds : List Stamped) : Prop where
  basename : ∀ stamped ∈ stampeds, (target stamped).file.basename = stamped.file.basename
  sound : ∀ stamped ∈ stampeds, (target stamped).Sound
  choose : ∀ stamped ∈ stampeds, ∃ pkg fn, choose old stamps stamped = some (pkg, fn) ∧
    (target stamped).pkg.Alike pkg

/-- Where the loop is after some of the files, beside one that reads the targets. -/
structure Follows (done : List Stamped) (packages : Packages) (loop : Loop) : Prop where
  newest : packages.Newest (done.map fun stamped => (target stamped).pkg)
  alike : packages.Alike loop.packages
  fn : ∀ stamped ∈ done, packages.lookup (target stamped).pkg.key = some (target stamped).pkg →
    loop.fn (target stamped).pkg.key = (MakeIndex.choose old stamps stamped).bind Prod.snd
  stamped : ∀ stamped ∈ done, loop.stamps.lookup stamped.file.basename = some stamped.seconds
  stamps : ∀ name, (∀ stamped ∈ done, stamped.file.basename ≠ name) →
    loop.stamps.lookup name = stamps.lookup name
  surplus : ∀ name, name ∈ loop.surplus ↔ ∃ stamped ∈ done, stamped.file.basename = name ∧
    packages.lookup (target stamped).pkg.key ≠ some (target stamped).pkg
  area : loop.area = if options.m then loop.surplus.foldl Area.to_morgue area else area

variable {options old stamps area target} {done : List Stamped} {packages : Packages} {loop : Loop}
  {stamped : Stamped}

/-- The package of the old index, if the file is the same. -/
def reused (old : AList fun _ : Option Text => Package) (stamps : Stamps) (stamped : Stamped) : Option Package :=
  if stamped.whole ∧ stamps.lookup stamped.file.basename = some stamped.seconds then
    old.lookup (some stamped.file.basename)
  else none

theorem choose_eq : choose old stamps stamped = match reused old stamps stamped with
    | some pkg => some (pkg, none)
    | none => (Package.init stamped.file).map fun (pkg, _) => (pkg, some stamped) := by
  rw [choose, reused]
  by_cases same : stamped.whole ∧ stamps.lookup stamped.file.basename = some stamped.seconds
  · rw [if_pos same]
    cases old.lookup (some stamped.file.basename) with
    | none => rfl
    | some pkg => exact if_pos same
  · rw [if_neg same]
    cases old.lookup (some stamped.file.basename) with
    | none => rfl
    | some pkg => exact if_neg same

theorem choose_fn {pkg : Package} {fn : Option Stamped} (choice : choose old stamps stamped = some (pkg, fn)) :
    fn = if (reused old stamps stamped).isSome then none else some stamped := by
  rw [choose_eq] at choice
  cases found : reused old stamps stamped with
  | some entry =>
    rw [found, Option.some.injEq, Prod.mk.injEq] at choice
    exact choice.2.symm
  | none =>
    rw [found] at choice
    obtain ⟨read, -, same⟩ := Option.map_eq_some_iff.mp choice
    exact (Prod.mk.inj same).2.symm

theorem choose_congr {stamps' : Stamps} (same : stamps'.lookup stamped.file.basename =
    stamps.lookup stamped.file.basename) : choose old stamps' stamped = choose old stamps stamped := by
  rw [choose, choose, same]

theorem Chosen.listed {stampeds : List Stamped} (chosen : Chosen old stamps target stampeds)
    (listed : Listed stampeds) : Listed (stampeds.map target) where
  distinct := by
    have names : (stampeds.map target).map (fun stamped => stamped.file.basename) =
        stampeds.map fun stamped => stamped.file.basename := by
      rw [List.map_map]
      exact List.map_congr_left chosen.basename
    exact names ▸ listed.distinct
  matched image member := by
    obtain ⟨stamped, inside, rfl⟩ := List.mem_map.mp member
    exact chosen.basename stamped inside ▸ listed.matched stamped inside
  sound image member := by
    obtain ⟨stamped, inside, rfl⟩ := List.mem_map.mp member
    exact chosen.sound stamped inside

theorem Follows.here (follows : Follows options old stamps area target done packages loop)
    (listed : Listed (done ++ [stamped])) :
    loop.area.here stamped.file.basename = area.here stamped.file.basename := by
  rw [follows.area]
  split
  · refine surplus_here_of_notMem fun moved member => ⟨fun same => ?_, ?_⟩
    · obtain ⟨before, inDone, basename, -⟩ := (follows.surplus moved).mp member
      have equal := listed.eq_of_basename (List.mem_append_right done List.mem_cons_self)
        (List.mem_append_left [stamped] inDone) (same.trans basename.symm)
      have distinct := listed.distinct
      rw [List.map_append, List.nodup_append] at distinct
      exact distinct.2.2 _ (List.mem_map_of_mem inDone) _ (List.mem_map_of_mem List.mem_cons_self)
        (congrArg (fun stamped => stamped.file.basename) equal.symm)
    · exact matched_unsigned (listed.matched stamped (List.mem_append_right done List.mem_cons_self)) moved
  · rfl

theorem Follows.entry (follows : Follows options old stamps area target done packages loop) {key : Text}
    {entry : Package} (found : packages.lookup key = some entry) :
    ∃ stamped ∈ done, (target stamped).pkg = entry ∧ entry.key = key := by
  obtain ⟨member, keyed⟩ := follows.newest.entry key entry found
  obtain ⟨stamped, inDone, same⟩ := List.mem_map.mp member
  exact ⟨stamped, inDone, same, keyed⟩

/-- The names of a loop are those of entries. -/
theorem Follows.named (follows : Follows options old stamps area target done packages loop) {name : Text}
    (member : name ∈ loop.packages.names) : ∃ stamped ∈ done,
      packages.lookup (target stamped).pkg.key = some (target stamped).pkg ∧ (target stamped).pkg.key = name := by
  have present := (follows.alike.mem name).mpr (Packages.mem_names.mp member)
  obtain ⟨entry, found⟩ := Option.isSome_iff_exists.mp (AList.lookup_isSome.mpr present)
  obtain ⟨stamped, inDone, same, keyed⟩ := follows.entry found
  subst keyed same
  exact ⟨stamped, inDone, found, rfl⟩

section Step

variable (chosen : Chosen old stamps target (done ++ [stamped])) (listed : Listed (done ++ [stamped]))

include chosen listed

theorem Chosen.eq_of_pkg {first second : Stamped} (inFirst : first ∈ done ++ [stamped])
    (inSecond : second ∈ done ++ [stamped]) (same : (target first).pkg = (target second).pkg) : first = second := by
  have targets := chosen.listed listed
  have images := targets.eq_of_pkg (List.mem_map_of_mem inFirst) (List.mem_map_of_mem inSecond) same
  refine listed.eq_of_basename inFirst inSecond ?_
  rw [← chosen.basename first inFirst, ← chosen.basename second inSecond, images]

theorem Chosen.ne_last {before : Stamped} (inDone : before ∈ done) : (target before).pkg ≠ (target stamped).pkg := by
  intro same
  have inAll := List.mem_append_left [stamped] inDone
  have inLast : stamped ∈ done ++ [stamped] := List.mem_append_right done List.mem_cons_self
  have equal := chosen.eq_of_pkg listed inAll inLast same
  have distinct := listed.distinct
  rw [List.map_append, List.nodup_append] at distinct
  exact distinct.2.2 _ (List.mem_map_of_mem inDone) _ (List.mem_map_of_mem List.mem_cons_self)
    (congrArg (fun stamped => stamped.file.basename) equal)

/-- The file of the entry that the package takes the place of -/
theorem Follows.displaced_iff (follows : Follows options old stamps area target done packages loop) {name : Text} :
    name ∈ superfluous (old_filename packages (target stamped).pkg) stamped.file.basename 0 ↔
      ∃ before ∈ done, before.file.basename = name ∧
        packages.lookup (target stamped).pkg.key = some (target before).pkg := by
  rw [superfluous, if_pos rfl, old_filename]
  cases found : packages.lookup (target stamped).pkg.key with
  | none => simp
  | some current =>
    obtain ⟨before, inDone, same, -⟩ := follows.entry found
    have inAll := List.mem_append_left [stamped] inDone
    rw [Option.bind_some, ← same, (chosen.sound before inAll).filename, chosen.basename before inAll,
      Option.getD_some, if_neg before.file.named.1, List.mem_singleton]
    constructor
    · intro equal
      exact ⟨before, inDone, equal.symm, rfl⟩
    · intro known
      obtain ⟨other, inDone', equal, entry⟩ := known
      rw [chosen.eq_of_pkg listed inAll (List.mem_append_left [stamped] inDone') (Option.some.inj entry), equal]

/-- Who is not listed once the package is: who was not before, and who had its place. -/
theorem Follows.unlisted_insert_iff (follows : Follows options old stamps area target done packages loop)
    {before : Stamped} (inDone : before ∈ done) :
    (AList.insert (target stamped).pkg.key (target stamped).pkg packages).lookup (target before).pkg.key ≠
        some (target before).pkg ↔
      packages.lookup (target before).pkg.key ≠ some (target before).pkg ∨
        packages.lookup (target stamped).pkg.key = some (target before).pkg := by
  by_cases same : (target before).pkg.key = (target stamped).pkg.key
  · rw [same, AList.lookup_insert]
    refine iff_of_true (fun equal => ?_) (ne_or_eq _ _)
    exact chosen.ne_last listed inDone (Option.some.inj equal).symm
  · rw [AList.lookup_insert_ne same]
    refine (or_iff_left fun entry => ?_).symm
    obtain ⟨-, -, -, keyed⟩ := follows.entry entry
    exact same keyed

/-- What the files are that the index has no use for, after one file more -/
theorem Follows.surplus_add (follows : Follows options old stamps area target done packages loop)
    {packages' : Packages} {s : ℕ} (added : packages.add_package (target stamped).pkg = some (packages', s))
    (name : Text) :
    name ∈ loop.surplus ++ superfluous (old_filename packages (target stamped).pkg) stamped.file.basename s ↔
      ∃ other ∈ done ++ [stamped], other.file.basename = name ∧
        packages'.lookup (target other).pkg.key ≠ some (target other).pkg := by
  have inLast : stamped ∈ done ++ [stamped] := List.mem_append_right done List.mem_cons_self
  have entries : ∀ current, packages.lookup (target stamped).pkg.key = some current → current.Valid := by
    intro current found
    obtain ⟨before, inDone, same, -⟩ := follows.entry found
    exact same ▸ (chosen.sound before (List.mem_append_left _ inDone)).valid
  have split : ∀ property : Stamped → Prop, (∃ other ∈ done ++ [stamped], property other) ↔
      (∃ other ∈ done, property other) ∨ property stamped := by
    intro property
    simp [or_and_right, exists_or]
  rw [List.mem_append, follows.surplus, split]
  rcases Packages.add_package_cases (chosen.sound stamped inLast).valid entries with
    ⟨insert, -⟩ | ⟨keep, current, found, newer⟩
  · rw [insert, Option.some.injEq, Prod.mk.injEq] at added
    obtain ⟨rfl, rfl⟩ := added
    rw [follows.displaced_iff chosen listed, AList.lookup_insert]
    simp only [ne_eq, not_true, and_false, or_false]
    rw [← exists_or]
    refine exists_congr fun before => ?_
    rw [← and_or_left, ← and_or_left]
    refine and_congr_right fun inDone => and_congr_right fun _ => ?_
    exact (follows.unlisted_insert_iff chosen listed inDone).symm
  · rw [keep, Option.some.injEq, Prod.mk.injEq] at added
    obtain ⟨rfl, rfl⟩ := added
    have other : current ≠ (target stamped).pkg := fun same => lt_irrefl _ (same ▸ newer)
    rw [superfluous, if_neg Nat.one_ne_zero, List.mem_singleton, found]
    simp [other, eq_comm]

/-- One file more -/
theorem Follows.add (follows : Follows options old stamps area target done packages loop)
    (here : (area.here stamped.file.basename).isSome = true) :
    ∃ packages' s loop', packages.add_package (target stamped).pkg = some (packages', s) ∧
      Loop.add options old loop stamped = some loop' ∧
      Follows options old stamps area target (done ++ [stamped]) packages' loop' := by
  have inLast : stamped ∈ done ++ [stamped] := List.mem_append_right done List.mem_cons_self
  have seen : ∀ current ∈ done.map (fun stamped => (target stamped).pkg), current.Valid := by
    intro current member
    obtain ⟨before, inDone, rfl⟩ := List.mem_map.mp member
    exact (chosen.sound before (List.mem_append_left _ inDone)).valid
  have notDone : ∀ before ∈ done, before.file.basename ≠ stamped.file.basename := by
    intro before inDone same
    have equal := listed.eq_of_basename (List.mem_append_left _ inDone) inLast same
    exact chosen.ne_last listed inDone (equal ▸ rfl)
  have valid := (chosen.sound stamped inLast).valid
  obtain ⟨packages', s, added, newest, entered⟩ := follows.newest.add_package valid seen
  obtain ⟨pkg, fn, choice, both⟩ := chosen.choose stamped inLast
  obtain ⟨others, added', alike⟩ := follows.alike.add_package both added
  obtain ⟨content, found⟩ := Option.isSome_iff_exists.mp here
  have ran : loop.add options old stamped = some (loop.next options stamped pkg fn others s) := by
    rw [Loop.add, follows.here listed, found, choose_congr (follows.stamps _ notDone), choice]
    simp only [Option.bind_eq_bind, Option.bind_some, added']
  have displaced : old_filename loop.packages pkg = old_filename packages (target stamped).pkg := by
    rw [old_filename, old_filename, both.key, follows.alike.filename]
  refine ⟨packages', s, _, added, ran, ⟨by simpa using newest, alike, ?_, ?_, ?_, ?_, ?_⟩⟩
  · intro other member entry
    rw [List.mem_append, List.mem_singleton] at member
    cases member with
    | inr last =>
      subst last
      rw [next_fn, if_pos (entered.mpr entry), both.key, Function.update_self, choice, Option.bind_some]
    | inl inDone =>
      have apart := chosen.ne_last listed inDone
      rw [← follows.fn other inDone ((Packages.add_package_entry added entry).resolve_right fun same => apart same.1)]
      rw [next_fn]
      split
      · next zero =>
        refine Function.update_of_ne (fun same => apart ?_) ..
        rw [same, both.key, entered.mp zero, Option.some.injEq] at entry
        exact entry.symm
      · rfl
  · intro other member
    by_cases same : other.file.basename = stamped.file.basename
    · rw [listed.eq_of_basename member inLast same, next_stamps, AList.lookup_insert]
    · rw [next_stamps, AList.lookup_insert_ne same]
      refine follows.stamped other ?_
      rw [List.mem_append, List.mem_singleton] at member
      exact member.resolve_right fun last => same (last ▸ rfl)
  · intro name outside
    rw [next_stamps, AList.lookup_insert_ne (outside stamped inLast).symm]
    exact follows.stamps name fun before inDone => outside before (List.mem_append_left _ inDone)
  · intro name
    rw [next_surplus, displaced]
    exact follows.surplus_add chosen listed added name
  · simp only [Loop.next, follows.area]
    split
    · rw [List.foldl_append]
    · rfl

end Step

theorem Chosen.left {before after : List Stamped} (chosen : Chosen old stamps target (before ++ after)) :
    Chosen old stamps target before where
  basename stamped member := chosen.basename stamped (List.mem_append_left after member)
  sound stamped member := chosen.sound stamped (List.mem_append_left after member)
  choose stamped member := chosen.choose stamped (List.mem_append_left after member)

theorem Follows.start :
    Follows options old stamps area target [] ∅
      { packages := ∅, fn := fun _ => none, stamps := stamps, area := area, surplus := [] } where
  newest := Packages.newest_empty
  alike := .refl ∅
  fn _ member := absurd member List.not_mem_nil
  stamped _ member := absurd member List.not_mem_nil
  stamps _ _ := rfl
  surplus _ := by simp
  area := by simp

/-- All files, one after the other -/
theorem Follows.addAll {rest : List Stamped} (follows : Follows options old stamps area target done packages loop)
    (chosen : Chosen old stamps target (done ++ rest)) (listed : Listed (done ++ rest))
    (here : ∀ stamped ∈ rest, (area.here stamped.file.basename).isSome = true) :
    ∃ packages' printed loop', packages.addFiles (rest.map fun stamped => (target stamped).file) =
      some (packages', printed) ∧ rest.foldlM (Loop.add options old) loop = some loop' ∧
      Follows options old stamps area target (done ++ rest) packages' loop' := by
  induction rest generalizing done packages loop with
  | nil => exact ⟨packages, [], loop, rfl, rfl, by rwa [List.append_nil]⟩
  | cons stamped rest hypothesis =>
    rw [List.append_cons] at chosen listed
    obtain ⟨middle, s, loop', added, ran, follows'⟩ :=
      follows.add chosen.left listed.left (here stamped List.mem_cons_self)
    obtain ⟨packages', printed, loop'', addedRest, ranRest, final⟩ :=
      hypothesis follows' chosen listed fun other member => here other (List.mem_cons_of_mem stamped member)
    have inLast : stamped ∈ done ++ [stamped] := List.mem_append_right done List.mem_cons_self
    obtain ⟨lost, init⟩ := (chosen.left.sound stamped inLast).init
    refine ⟨packages', lost ++ packages.compared (target stamped).pkg ++ printed, loop'', ?_, ?_, ?_⟩
    · simp only [List.map_cons, Packages.addFiles, init, added, addedRest, Option.bind_eq_bind, Option.bind_some]
    · rw [List.foldlM_cons, ran]
      exact ranRest
    · rwa [List.append_cons]

/-! ## What is written -/

section Written

/-- The lines of `Packages.filelist` for packages with these members -/
def filelistText (names : List Text) (members : Text → List Text) : Text :=
  let files := names.foldl (fun files name => listFiles name files (members name)) (∅ : AList fun _ : Text => Text)
  (files.keys.insertionSort (· ≤ ·)).flatMap fun name => name ++ ' ' :: (files.lookup name).getD [] ++ ['\n']

theorem filelist_eq {loop : Loop} {members : Text → List Text}
    (lists : ∀ name ∈ loop.packages.names, get_file_list loop.area (loop.fn name) = some (members name)) :
    loop.filelist = some (filelistText loop.packages.names members) := by
  have steps : ∀ files, ∀ name ∈ loop.packages.names, (do
      let members ← get_file_list loop.area (loop.fn name)
      some (listFiles name files members)) = some (listFiles name files (members name)) := by
    intro files name member
    rw [lists name member]
    rfl
  rw [Loop.filelist, foldlM_eq_some steps]
  rfl

theorem Follows.index (follows : Follows options old stamps area target done packages loop) :
    indexText [] loop.packages = stanzas 1 packages.entries :=
  follows.alike.printed.symm

/-- The file of an entry stays in the directory. -/
theorem Follows.listed_here (follows : Follows options old stamps area target done packages loop)
    (listed : Listed done) {stamped : Stamped} (inDone : stamped ∈ done)
    (entry : packages.lookup (target stamped).pkg.key = some (target stamped).pkg) :
    loop.area.here stamped.file.basename = area.here stamped.file.basename := by
  rw [follows.area]
  split
  · refine surplus_here_of_notMem fun moved member => ⟨fun same => ?_, ?_⟩
    · obtain ⟨other, inDone', basename, unlisted⟩ := (follows.surplus moved).mp member
      obtain rfl := listed.eq_of_basename inDone inDone' (same.trans basename.symm)
      exact unlisted entry
    · exact matched_unsigned (listed.matched stamped inDone) moved
  · rfl

variable (follows : Follows options old stamps area target done packages loop)
  (chosen : Chosen old stamps target done)

include follows chosen

/-- The plain loop has an index that can be read back. -/
theorem Follows.faithful : packages.Faithful := by
  have sound : ∀ key entry, packages.lookup key = some entry → ∃ stamped : Stamped, stamped.Sound ∧
      stamped.pkg = entry := by
    intro key entry found
    obtain ⟨stamped, inDone, same, -⟩ := follows.entry found
    exact ⟨target stamped, chosen.sound stamped inDone, same⟩
  refine ⟨fun key entry found => (follows.newest.entry key entry found).2, fun key entry found => ?_,
    fun key entry found => ?_⟩
  · obtain ⟨stamped, sound, rfl⟩ := sound key entry found
    exact sound.indexed
  · obtain ⟨stamped, sound, rfl⟩ := sound key entry found
    exact sound.printable

/-- What a loop lists for an entry: nothing, if its package is from the old index. -/
theorem Follows.entry_list (listed : Listed done) {stamped : Stamped} (inDone : stamped ∈ done)
    (entry : packages.lookup (target stamped).pkg.key = some (target stamped).pkg)
    (here : (area.here stamped.file.basename).isSome = true) :
    get_file_list loop.area (loop.fn (target stamped).pkg.key) =
      some (if (reused old stamps stamped).isSome then [] else stamped.members.map fun member =>
        if "./".toList.isPrefixOf member then member else "./".toList ++ member) := by
  obtain ⟨pkg, fn, choice, -⟩ := chosen.choose stamped inDone
  obtain ⟨content, present⟩ := Option.isSome_iff_exists.mp here
  rw [follows.fn stamped inDone entry, choice, Option.bind_some, choose_fn choice]
  split
  · rfl
  · rw [get_file_list, follows.listed_here listed inDone entry, present, Option.map_some]

theorem Follows.filelist (listed : Listed done)
    (here : ∀ stamped ∈ done, (area.here stamped.file.basename).isSome = true) :
    ∃ filelist, loop.filelist = some filelist := by
  refine ⟨_, @filelist_eq _ (fun name => (get_file_list loop.area (loop.fn name)).getD []) fun name member => ?_⟩
  obtain ⟨stamped, inDone, entry, rfl⟩ := follows.named member
  rw [follows.entry_list chosen listed inDone entry (here stamped inDone)]
  rfl

end Written

end Loop

end MakeIndex

end BotBrew.Opkg
