import BotBrew.Opkg.MakeIndexProperties

/-! Run after run of `opkg-make-index -p` over a package directory that changes in between. -/

set_option autoImplicit false

namespace BotBrew.Opkg.MakeIndex

open Text Dictionary

/-! ## What a run finds -/

/-- The packages are those of an index over these files. -/
structure Indexes (seen : List Stamped) (packages : Packages) : Prop where
  added : ∃ printed, (∅ : Packages).addFiles (seen.map Stamped.file) = some (packages, printed)
  newest : packages.Newest (seen.map Stamped.pkg)
  faithful : packages.Faithful

/-- The index and the stamps on the disk -/
structure Holds (order : HashOrder) (packages : Packages) (stamps : Stamps) (disk : Disk) : Prop where
  index : disk.index = some (indexText [] packages)
  stamped : disk.stamps = some (stampsText order stamps)
  unspaced : ∀ name ∈ stamps, Unspaced name

/-- The package of the file is the one in the index. -/
def offers (packages : Packages) (stamped : Stamped) : Bool :=
  old_filename packages stamped.pkg = stamped.file.basename

/-- A file as a run sees it: with the package of the old index, if the stamp says that it is the same. -/
def remembered (seen : List Stamped) (packages : Packages) (stamps : Stamps) (stamped : Stamped) : Stamped :=
  match seen.find? fun before => before.file.basename = stamped.file.basename ∧ offers packages before with
  | some before =>
    if stamped.whole ∧ stamps.lookup stamped.file.basename = some stamped.seconds then
      { stamped with file := before.file }
    else stamped
  | none => stamped

variable {order : HashOrder} {options : Options} {seen stampeds : List Stamped} {packages : Packages}
  {stamps : Stamps} {disk : Disk} {area : Area}

theorem Chosen.fresh (listed : Listed stampeds) (stamps : Stamps) : Chosen ∅ stamps id stampeds := by
  refine ⟨fun _ _ => rfl, listed.sound, fun stamped member => ?_⟩
  obtain ⟨lost, init⟩ := (listed.sound stamped member).init
  have none : reused ∅ stamps stamped = none := by
    rw [reused]
    split
    · exact AList.lookup_empty _
    · rfl
  refine ⟨stamped.pkg, some stamped, ?_, .refl _⟩
  rw [choose_eq, none, init]
  rfl

theorem Follows.indexes {old : AList fun _ : Option Text => Package} {target : Stamped → Stamped} {loop : Loop}
    (follows : Follows options old stamps area target stampeds packages loop)
    (chosen : Chosen old stamps target stampeds) {printed : Text}
    (added : (∅ : Packages).addFiles (stampeds.map fun stamped => (target stamped).file) = some (packages, printed)) :
    Indexes (stampeds.map target) packages where
  added := ⟨printed, by rw [List.map_map]; exact added⟩
  newest := by
    rw [List.map_map]
    exact follows.newest
  faithful := follows.faithful chosen

/-- Package files have an index. -/
theorem Indexes.exists (listed : Listed seen) : ∃ packages, Indexes seen packages := by
  let area : Area := { here := fun _ => some [], morgue := fun _ => none }
  let options : Options := { pkg_dir := [], m := false, s := false }
  have chosen : Chosen ∅ ∅ id ([] ++ seen) := Chosen.fresh listed ∅
  have start : Follows options ∅ ∅ area id [] ∅ _ := Follows.start
  obtain ⟨packages, printed, loop, added, -, follows⟩ := start.addAll chosen listed fun _ _ => rfl
  have indexes := follows.indexes chosen added
  rw [List.nil_append, List.map_id] at indexes
  exact ⟨packages, indexes⟩

theorem Indexes.unique {packages' : Packages} (indexes : Indexes seen packages)
    (indexes' : Indexes seen packages') : packages = packages' := by
  obtain ⟨printed, added⟩ := indexes.added
  obtain ⟨printed', added'⟩ := indexes'.added
  rw [added, Option.some.injEq, Prod.mk.injEq] at added'
  exact added'.1

theorem Indexes.entry (indexes : Indexes seen packages) {key : Text} {entry : Package}
    (found : packages.lookup key = some entry) : ∃ stamped ∈ seen, stamped.pkg = entry ∧ entry.key = key := by
  obtain ⟨member, keyed⟩ := indexes.newest.entry key entry found
  obtain ⟨stamped, inSeen, same⟩ := List.mem_map.mp member
  exact ⟨stamped, inSeen, same, keyed⟩

theorem Indexes.offers_iff (indexes : Indexes seen packages) (listed : Listed seen) {stamped : Stamped}
    (member : stamped ∈ seen) :
    offers packages stamped = true ↔ packages.lookup stamped.pkg.key = some stamped.pkg := by
  rw [offers, decide_eq_true_eq, old_filename]
  constructor
  · intro same
    cases found : packages.lookup stamped.pkg.key with
    | none =>
      rw [found] at same
      exact absurd same.symm stamped.file.named.1
    | some current =>
      obtain ⟨other, inSeen, rfl, -⟩ := indexes.entry found
      rw [found, Option.bind_some, (listed.sound other inSeen).filename, Option.getD_some] at same
      rw [listed.eq_of_basename inSeen member same]
  · intro found
    rw [found, Option.bind_some, (listed.sound stamped member).filename, Option.getD_some]

/-- What `old_pkg_hash` holds of an index: its packages under the names of their files -/
structure Recalls (seen : List Stamped) (packages : Packages) (old : AList fun _ : Option Text => Package) :
    Prop where
  known : ∀ name pkg, old.lookup (some name) = some pkg → ∃ stamped ∈ seen, stamped.file.basename = name ∧
    offers packages stamped = true ∧ stamped.pkg.Alike pkg
  found : ∀ stamped ∈ seen, offers packages stamped = true →
    ∃ pkg, old.lookup (some stamped.file.basename) = some pkg ∧ stamped.pkg.Alike pkg

theorem Indexes.recalls (indexes : Indexes seen packages) (listed : Listed seen) {old : Packages}
    (alike : packages.Alike old) : Recalls seen packages (old_pkg_hash order old) := by
  have entries : ∀ key pkg, old.lookup key = some pkg → ∃ stamped ∈ seen, stamped.pkg.key = key ∧
      packages.lookup key = some stamped.pkg ∧ stamped.pkg.Alike pkg ∧
      pkg.self "filename" = some stamped.file.basename := by
    intro key pkg lookup
    obtain ⟨entry, found, same⟩ := alike.found' lookup
    obtain ⟨stamped, inSeen, rfl, keyed⟩ := indexes.entry found
    exact ⟨stamped, inSeen, keyed, found, same, same.filename.trans (listed.sound stamped inSeen).filename⟩
  have names : old.FileNames := by
    intro key pkg key' pkg' lookup lookup' same
    obtain ⟨stamped, inSeen, keyed, -, -, filename⟩ := entries key pkg lookup
    obtain ⟨stamped', inSeen', keyed', -, -, filename'⟩ := entries key' pkg' lookup'
    rw [filename, filename', Option.some.injEq] at same
    rw [← keyed, ← keyed', listed.eq_of_basename inSeen inSeen' same]
  refine ⟨fun name pkg hashed => ?_, fun stamped inSeen offered => ?_⟩
  · obtain ⟨key, lookup, filename⟩ := (lookup_old_pkg_hash order names).mp hashed
    obtain ⟨stamped, inSeen, rfl, found, same, filename'⟩ := entries key pkg lookup
    rw [filename', Option.some.injEq] at filename
    exact ⟨stamped, inSeen, filename, (indexes.offers_iff listed inSeen).mpr found, same⟩
  · obtain ⟨pkg, lookup, same⟩ := alike.found ((indexes.offers_iff listed inSeen).mp offered)
    refine ⟨pkg, (lookup_old_pkg_hash order names).mpr ⟨stamped.pkg.key, lookup, ?_⟩, same⟩
    exact same.filename.trans (listed.sound stamped inSeen).filename

/-- What is read from an index and its stamps -/
theorem Holds.read (holds : Holds order packages stamps disk) (indexes : Indexes seen packages)
    (listed : Listed seen) :
    ∃ old stamps', disk.read order = some (old, stamps') ∧ Recalls seen packages old ∧
      (∀ name, stamps'.lookup name = stamps.lookup name) ∧ ∀ name ∈ stamps', Unspaced name := by
  obtain ⟨old, read, alike⟩ := indexes.faithful.read 1
  obtain ⟨stamps', readBack, same⟩ := readStamps_stampsText order holds.unspaced
  have unspaced : ∀ name ∈ stamps', Unspaced name := by
    intro name member
    rw [← AList.lookup_isSome, same, AList.lookup_isSome] at member
    exact holds.unspaced name member
  refine ⟨old_pkg_hash order old, stamps', ?_, indexes.recalls listed alike, same, unspaced⟩
  have read' : (∅ : Packages).read_packages_file (readlines (indexText [] packages)) = some old := read
  rw [Disk.read, holds.index, holds.stamped]
  simp only [read', readBack, Option.bind_eq_bind, Option.bind_some]

theorem sound_congr {stamped other : Stamped} (sound : other.Sound) (same : stamped.file = other.file) :
    stamped.Sound := by
  have pkg : stamped.pkg = other.pkg := by rw [Stamped.pkg, Stamped.pkg, same]
  exact ⟨same ▸ sound.built, pkg ▸ sound.valid, pkg ▸ sound.printable⟩

/-- A file is seen as one of the old index, or as it is. -/
theorem remembered_cases (seen : List Stamped) (packages : Packages) (stamps : Stamps) (stamped : Stamped) :
    (∃ before ∈ seen, before.file.basename = stamped.file.basename ∧ offers packages before = true ∧
      (stamped.whole = true ∧ stamps.lookup stamped.file.basename = some stamped.seconds) ∧
      remembered seen packages stamps stamped = { stamped with file := before.file }) ∨
    (remembered seen packages stamps stamped = stamped ∧ ∀ before ∈ seen,
      before.file.basename = stamped.file.basename → offers packages before = true →
      ¬ (stamped.whole = true ∧ stamps.lookup stamped.file.basename = some stamped.seconds)) := by
  rw [remembered]
  cases found : seen.find? fun before => before.file.basename = stamped.file.basename ∧ offers packages before with
  | none =>
    refine .inr ⟨rfl, fun before member same offered _ => ?_⟩
    have other := List.find?_eq_none.mp found before member
    simp [same, offered] at other
  | some before =>
    have both := List.find?_some found
    rw [decide_eq_true_eq] at both
    by_cases stamp : stamped.whole = true ∧ stamps.lookup stamped.file.basename = some stamped.seconds
    · exact .inl ⟨before, List.mem_of_find?_eq_some found, both.1, both.2, stamp, if_pos stamp⟩
    · exact .inr ⟨if_neg stamp, fun _ _ _ _ => stamp⟩

theorem remembered_basename (seen : List Stamped) (packages : Packages) (stamps : Stamps) (stamped : Stamped) :
    (remembered seen packages stamps stamped).file.basename = stamped.file.basename := by
  rcases remembered_cases seen packages stamps stamped with ⟨before, -, same, -, -, shape⟩ | ⟨shape, -⟩
  · rw [shape]
    exact same
  · rw [shape]

/-- A run takes the files as it remembers them. -/
theorem Recalls.chosen {old : AList fun _ : Option Text => Package} {stamps' : Stamps}
    (recalls : Recalls seen packages old) (listed : Listed seen) (listed' : Listed stampeds)
    (same : ∀ name, stamps'.lookup name = stamps.lookup name) :
    Chosen old stamps' (remembered seen packages stamps) stampeds := by
  refine ⟨fun stamped _ => remembered_basename seen packages stamps stamped, fun stamped member => ?_,
    fun stamped member => ?_⟩
  · rcases remembered_cases seen packages stamps stamped with ⟨before, inSeen, -, -, -, shape⟩ | ⟨shape, -⟩
    · exact sound_congr (listed.sound before inSeen) (by rw [shape])
    · exact shape.symm ▸ listed'.sound stamped member
  · rcases remembered_cases seen packages stamps stamped with
      ⟨before, inSeen, basename, offered, stamp, shape⟩ | ⟨shape, changed⟩
    · obtain ⟨pkg, found, alike⟩ := recalls.found before inSeen offered
      rw [basename] at found
      have taken : reused old stamps' stamped = some pkg := by rw [reused, same, if_pos stamp, found]
      refine ⟨pkg, none, by rw [choose_eq, taken], ?_⟩
      rw [shape]
      exact alike
    · have none : reused old stamps' stamped = none := by
        rw [reused, same]
        split
        · next stamp =>
          rw [← Option.not_isSome_iff_eq_none, Option.isSome_iff_exists, not_exists]
          intro pkg found
          obtain ⟨before, inSeen, basename, offered, -⟩ := recalls.known _ _ found
          exact changed before inSeen basename offered stamp
        · rfl
      obtain ⟨lost, init⟩ := (listed'.sound stamped member).init
      refine ⟨stamped.pkg, some stamped, ?_, shape.symm ▸ .refl _⟩
      rw [choose_eq, none, init]
      rfl

/-! ## Runs -/

/-- The package directory when a run starts -/
structure Round where
  options : Options
  dir : List Stamped
  area : Area
  listed : Listed (files dir)
  here : ∀ stamped ∈ files dir, (area.here stamped.file.basename).isSome = true

/-- What a run leaves of the disk of the run before -/
def Round.run (order : HashOrder) (disk : Disk) (round : Round) : Option Disk :=
  (MakeIndex.run order round.options round.dir { disk with area := round.area }).map Prod.fst

def runs (order : HashOrder) (rounds : List Round) (disk : Disk) : Option Disk := rounds.foldlM (Round.run order) disk

/-- The index is the one of these files, and the stamps are theirs. -/
structure Current (order : HashOrder) (seen : List Stamped) (disk : Disk) : Prop where
  listed : Listed seen
  holds : ∃ packages stamps, Indexes seen packages ∧ Holds order packages stamps disk ∧
    ∀ stamped ∈ seen, stamps.lookup stamped.file.basename = some stamped.seconds

/-- A package file that keeps its name and its time keeps its content. -/
def Disciplined (before after : Round) : Prop :=
  ∀ stamped ∈ files before.dir, ∀ stamped' ∈ files after.dir,
    stamped.file.basename = stamped'.file.basename → stamped'.whole = true →
    stamped.seconds = stamped'.seconds → stamped.file = stamped'.file

section Run

variable {old : AList fun _ : Option Text => Package} {target : Stamped → Stamped} {round : Round}

theorem Round.loop_follows (read : disk.read order = some (old, stamps))
    (chosen : Chosen old stamps target (files round.dir)) :
    ∃ packages printed loop', (∅ : Packages).addFiles ((files round.dir).map fun stamped => (target stamped).file) =
      some (packages, printed) ∧
      loop order round.options round.dir { disk with area := round.area } = some loop' ∧
      Follows round.options old stamps round.area target (files round.dir) packages loop' := by
  have start : Follows round.options old stamps round.area target [] ∅ _ := Follows.start
  obtain ⟨packages, printed, loop', added, ran, follows⟩ := start.addAll chosen round.listed round.here
  refine ⟨packages, printed, loop', added, ?_, follows⟩
  have read' : Disk.read order { disk with area := round.area } = some (old, stamps) := read
  rw [loop, read']
  exact ran

/-- What the stamps are after a run -/
structure Restamped (stamps : Stamps) (stampeds : List Stamped) (stamps' : Stamps) : Prop where
  stamped : ∀ stamped ∈ stampeds, stamps'.lookup stamped.file.basename = some stamped.seconds
  kept : ∀ name, (∀ stamped ∈ stampeds, stamped.file.basename ≠ name) → stamps'.lookup name = stamps.lookup name
  unspaced : ∀ name ∈ stamps', Unspaced name

theorem Follows.restamped {done : List Stamped} {loop : Loop}
    (follows : Follows options old stamps area target done packages loop)
    (unspaced : ∀ name ∈ stamps, Unspaced name) : Restamped stamps done loop.stamps := by
  refine ⟨follows.stamped, follows.stamps, fun name member => ?_⟩
  by_cases known : ∃ stamped ∈ done, stamped.file.basename = name
  · obtain ⟨stamped, -, same⟩ := known
    exact same ▸ stamped.file.named
  · have lookup := follows.stamps name fun stamped inDone same => known ⟨stamped, inDone, same⟩
    rw [← AList.lookup_isSome, lookup, AList.lookup_isSome] at member
    exact unspaced name member

/-- What a run writes -/
theorem Round.run_cases {loop' : Loop} {disk' : Disk}
    (looped : loop order round.options round.dir { disk with area := round.area } = some loop')
    (ran : round.run order disk = some disk') :
    disk'.area = loop'.area ∧
      (round.options.s = false → disk'.index = some (indexText [] loop'.packages) ∧ disk'.filelist = loop'.filelist) := by
  rw [Round.run, MakeIndex.run, looped] at ran
  simp only [Option.bind_eq_bind, Option.bind_some] at ran
  cases shows : round.options.s with
  | true =>
    simp only [shows, if_true, Option.map_some, Option.some.injEq] at ran
    exact ⟨ran ▸ rfl, nofun⟩
  | false =>
    simp only [shows, Bool.false_eq_true, if_false] at ran
    cases written : loop'.filelist with
    | none => simp [written] at ran
    | some filelist =>
      simp only [written, Option.bind_some, Option.map_some, Option.some.injEq] at ran
      exact ⟨ran ▸ rfl, fun _ => ⟨ran ▸ rfl, ran ▸ rfl⟩⟩

/-- A run without `-s` leaves the index of the files as it has taken them. -/
theorem Round.run_holds (writes : round.options.s = false) (read : disk.read order = some (old, stamps))
    (unspaced : ∀ name ∈ stamps, Unspaced name) (chosen : Chosen old stamps target (files round.dir)) :
    ∃ disk' packages' stamps', round.run order disk = some disk' ∧
      Indexes ((files round.dir).map target) packages' ∧ Holds order packages' stamps' disk' ∧
      Restamped stamps (files round.dir) stamps' := by
  obtain ⟨packages', printed, loop', added, ran, follows⟩ := round.loop_follows read chosen
  obtain ⟨filelist, listed⟩ := follows.filelist chosen round.listed round.here
  have restamped := follows.restamped unspaced
  let disk' : Disk :=
    { index := some (indexText [] loop'.packages), stamps := some (stampsText order loop'.stamps),
      filelist := some filelist, area := loop'.area }
  refine ⟨disk', packages', loop'.stamps, ?_, follows.indexes chosen added, ⟨?_, rfl, restamped.unspaced⟩,
    restamped⟩
  · rw [Round.run, MakeIndex.run, ran]
    simp only [Option.bind_eq_bind, Option.bind_some, writes, listed, Bool.false_eq_true, if_false, Option.map_some]
    rfl
  · exact congrArg some follows.index

/-- A run with `-s` leaves the index, and stamps that are not those of its packages. -/
theorem Round.run_shows (shows : round.options.s = true)
    (read : disk.read order = some (old, stamps)) (unspaced : ∀ name ∈ stamps, Unspaced name)
    (chosen : Chosen old stamps target (files round.dir)) (holds : disk.index = some (indexText [] packages)) :
    ∃ disk' stamps', round.run order disk = some disk' ∧ Holds order packages stamps' disk' ∧
      Restamped stamps (files round.dir) stamps' := by
  obtain ⟨packages', printed, loop', added, ran, follows⟩ := round.loop_follows read chosen
  have restamped := follows.restamped unspaced
  let disk' : Disk := { disk with stamps := some (stampsText order loop'.stamps), area := loop'.area }
  refine ⟨disk', loop'.stamps, ?_, ⟨?_, rfl, restamped.unspaced⟩, restamped⟩
  · rw [Round.run, MakeIndex.run, ran]
    simp only [Option.bind_eq_bind, Option.bind_some, shows, if_true, Option.map_some]
    rfl
  · exact holds

end Run

/-! ## Histories -/

variable {rounds : List Round} {before after : Round}

/-- Where times identify packages, a run remembers the files as they are. -/
theorem remembered_disciplined (disciplined : Disciplined before after)
    (stamped : ∀ stamped ∈ files before.dir, stamps.lookup stamped.file.basename = some stamped.seconds)
    {stamped' : Stamped} (member : stamped' ∈ files after.dir) :
    remembered (files before.dir) packages stamps stamped' = stamped' := by
  rcases remembered_cases (files before.dir) packages stamps stamped' with
    ⟨old, inBefore, same, -, ⟨whole, stamp⟩, shape⟩ | ⟨shape, -⟩
  · have seconds := stamped old inBefore
    rw [same, stamp, Option.some.injEq] at seconds
    rw [shape, disciplined old inBefore stamped' member same whole seconds.symm]
  · exact shape

/-- Where times identify packages, a run takes the files as they are. -/
theorem Recalls.chosen_same {old : AList fun _ : Option Text => Package} {stamps' : Stamps}
    (recalls : Recalls (files before.dir) packages old) (listed : Listed (files before.dir))
    (same : ∀ name, stamps'.lookup name = stamps.lookup name)
    (times : ∀ stamped ∈ files before.dir, stamps.lookup stamped.file.basename = some stamped.seconds)
    (disciplined : Disciplined before after) : Chosen old stamps' id (files after.dir) := by
  have chosen := recalls.chosen listed after.listed same
  refine ⟨fun _ _ => rfl, after.listed.sound, fun stamped member => ?_⟩
  obtain ⟨pkg, fn, choice, alike⟩ := chosen.choose stamped member
  rw [remembered_disciplined disciplined times member] at alike
  exact ⟨pkg, fn, choice, alike⟩

/-- The first run reads all packages. -/
theorem Current.first (writes : after.options.s = false) (new : disk.index = none) :
    ∃ disk', after.run order disk = some disk' ∧ Current order (files after.dir) disk' := by
  have read : disk.read order = some (∅, ∅) := by rw [Disk.read, new]
  obtain ⟨disk', packages, stamps, ran, indexes, holds, restamped⟩ :=
    Round.run_holds writes read (fun _ member => absurd member (AList.notMem_empty _))
      (Chosen.fresh after.listed ∅)
  rw [List.map_id] at indexes
  exact ⟨disk', ran, after.listed, packages, stamps, indexes, holds, restamped.stamped⟩

/-- One run more, over packages that were changed in between. -/
theorem Current.next (current : Current order (files before.dir) disk) (disciplined : Disciplined before after)
    (writes : after.options.s = false) :
    ∃ disk', after.run order disk = some disk' ∧ Current order (files after.dir) disk' := by
  obtain ⟨packages, stamps, indexes, holds, stamped⟩ := current.holds
  obtain ⟨old, stamps', read, recalls, same, unspaced⟩ := holds.read indexes current.listed
  have chosen := recalls.chosen_same current.listed same stamped disciplined
  obtain ⟨disk', packages', stamps'', ran, indexes', holds', restamped⟩ :=
    Round.run_holds writes read unspaced chosen
  rw [List.map_id] at indexes'
  exact ⟨disk', ran, after.listed, packages', stamps'', indexes', holds', restamped.stamped⟩

/-- After any number of runs the index is the one of the last directory. -/
theorem Current.runs (current : Current order (files before.dir) disk)
    (disciplined : (before :: rounds).IsChain Disciplined) (writes : ∀ round ∈ rounds, round.options.s = false) :
    ∃ disk', runs order rounds disk = some disk' ∧
      Current order (files ((before :: rounds).getLast (List.cons_ne_nil _ _)).dir) disk' := by
  induction rounds generalizing before disk with
  | nil => exact ⟨disk, rfl, current⟩
  | cons after rounds hypothesis =>
    obtain ⟨first, rest⟩ := List.isChain_cons_cons.mp disciplined
    obtain ⟨middle, ran, next⟩ := current.next first (writes after List.mem_cons_self)
    obtain ⟨disk', ranRest, final⟩ :=
      hypothesis next rest fun round member => writes round (List.mem_cons_of_mem after member)
    refine ⟨disk', ?_, final⟩
    rw [MakeIndex.runs, List.foldlM_cons, ran]
    exact ranRest

theorem runs_current (new : disk.index = none) (writes : ∀ round ∈ rounds ++ [after], round.options.s = false)
    (disciplined : (rounds ++ [after]).IsChain Disciplined) :
    ∃ disk', runs order (rounds ++ [after]) disk = some disk' ∧ Current order (files after.dir) disk' := by
  cases rounds with
  | nil =>
    obtain ⟨disk', ran, current⟩ := @Current.first order disk _ (writes after List.mem_cons_self) new
    refine ⟨disk', ?_, current⟩
    rw [List.nil_append, runs, List.foldlM_cons, ran]
    rfl
  | cons first rounds =>
    obtain ⟨middle, ran, current⟩ := @Current.first order disk _ (writes first List.mem_cons_self) new
    obtain ⟨disk', ranRest, final⟩ :=
      current.runs disciplined fun round member => writes round (List.mem_cons_of_mem first member)
    refine ⟨disk', ?_, ?_⟩
    · rw [List.cons_append, runs, List.foldlM_cons, ran]
      exact ranRest
    · simpa using final

/-- Runs that take what they can from the index before leave the same index as one that reads every package. -/
theorem incremental_index (order : HashOrder) (rounds : List Round) (last : Round) (disk : Disk)
    (new : disk.index = none) (writes : ∀ round ∈ rounds ++ [last], round.options.s = false)
    (disciplined : (rounds ++ [last]).IsChain Disciplined) :
    ∃ disk' packages printed, runs order (rounds ++ [last]) disk = some disk' ∧
      (∅ : Packages).addFiles ((files last.dir).map Stamped.file) = some (packages, printed) ∧
      disk'.index = some (indexText [] packages) := by
  obtain ⟨disk', ran, current⟩ := @runs_current order disk rounds last new writes disciplined
  obtain ⟨packages, stamps, indexes, holds, -⟩ := current.holds
  obtain ⟨printed, added⟩ := indexes.added
  exact ⟨disk', packages, printed, ran, added, holds.index⟩

/-- What a package file says is what the fields of its build say. -/
theorem read_pkg {stamped : Stamped} {build : Build} (same : build.file = stamped.file) {α : Type}
    {read : Package → α} {value : α}
    (shape : (build.file.initial.fields build.fields.clean).map (fun result => read result.1) = some value) :
    read stamped.pkg = value := by
  obtain ⟨⟨pkg, lost⟩, loaded, shape⟩ := Option.map_eq_some_iff.mp shape
  have init : Package.init stamped.file = some (pkg, lost) :=
    same ▸ (init_controlText (fun _ member => build.valid.named member) build.written).trans loaded
  rw [Stamped.pkg, init]
  exact shape

/-- A package file that `opkg-build` made of a build that its stanza can hold -/
theorem sound_of_values {stamped : Stamped} (build : Build) (same : build.file = stamped.file)
    (unset : ∀ field ∈ build.fields, lower field.1 ≠ "filename".toList) {version : Text}
    (validVersion : ValidVersion version) (values : List Text)
    (shape : (build.file.initial.fields build.fields.clean).map (fun result =>
      (result.1.name, result.1.version, result.1.printedFields.map Prod.snd,
        decide (∀ name ∈ compared, result.1.self name ≠ some []), decide (result.1.md5sum ≠ some []))) =
      some ("zlib".toList, some version, values, true, true))
    (fits : Fits values) : stamped.Sound := by
  have pkg := @read_pkg _ build same _ (fun pkg => (pkg.name, pkg.version, pkg.printedFields.map Prod.snd,
    decide (∀ name ∈ compared, pkg.self name ≠ some []), decide (pkg.md5sum ≠ some []))) _ shape
  simp only [Prod.mk.injEq, decide_eq_true_eq] at pkg
  obtain ⟨name, version, printed, attributes, md5⟩ := pkg
  have valid : stamped.pkg.Valid := ⟨by rw [name]; decide, _, version, validVersion⟩
  obtain ⟨result, compared, -⟩ := Package.compare_version_sign valid valid
  exact ⟨⟨build, same, unset⟩, valid,
    ⟨printed ▸ fits, ⟨attributes, md5⟩, Option.isSome_iff_exists.mpr ⟨result, compared⟩⟩⟩

theorem files_single {stamped : Stamped} (isMatched : matched stamped.file.basename = true) :
    files [stamped] = [stamped] := by
  simp [files, isMatched]

/-- A run over one package -/
def Round.single (stamped : Stamped) (isMatched : matched stamped.file.basename = true) (sound : stamped.Sound)
    (s : Bool) : Round where
  options := { pkg_dir := [], m := false, s := s }
  dir := [stamped]
  area := { here := fun _ => some [], morgue := fun _ => none }
  listed := by
    rw [files_single isMatched]
    exact ⟨List.nodup_singleton _, List.forall_mem_singleton.mpr isMatched, List.forall_mem_singleton.mpr sound⟩
  here _ _ := rfl

def describedStamped : Stamped := { file := describedBuild.file, members := [], seconds := 10, whole := true }

def sectionBuild : Build where
  fields := described [("Section".toList, "libs".toList)]
  file := zlibFile (described [("Section".toList, "libs".toList)])
  valid := ⟨by decide, by decide, by decide⟩
  written := rfl
  required := described_required _
  internal := by decide

def sectionStamped : Stamped := { file := sectionBuild.file, members := [], seconds := 20, whole := true }

theorem zlib_matched (fields : Metadata) : matched (zlibFile fields).basename = true := by
  have name : matched "zlib_1.2.7-r0_armel.opk".toList = true := by decide
  exact name

theorem describedStamped_sound : describedStamped.Sound := by
  refine sound_of_values describedBuild rfl (by decide) describedVersion_valid (["zlib", "1.2.7-r0", "arm",
    "d41d8cd98f00b204e9800998ecf8427e", "88064", "zlib_1.2.7-r0_armel.opk",
    "Compression library\n In two lines\n"].map String.toList) (by decide +kernel) ?_
  simp [Fits]

theorem sectionStamped_sound : sectionStamped.Sound := by
  refine sound_of_values sectionBuild rfl (by decide) describedVersion_valid (["zlib", "1.2.7-r0", "libs", "arm",
    "d41d8cd98f00b204e9800998ecf8427e", "88064", "zlib_1.2.7-r0_armel.opk",
    "Compression library\n In two lines\n"].map String.toList) (by decide +kernel) ?_
  simp [Fits]

def describedRound : Round := .single describedStamped (zlib_matched _) describedStamped_sound false

def sectionRound (s : Bool) : Round := .single sectionStamped (zlib_matched _) sectionStamped_sound s

def keysInOrder : HashOrder where
  keys names := names
  perm names := .refl names

def newDisk : Disk := { index := none, stamps := none, filelist := none, area := describedRound.area }

theorem sectionRound_files (s : Bool) : files (sectionRound s).dir = [sectionStamped] := files_single (zlib_matched _)

/-! A newer version beside -/

def newerFields : Metadata :=
  [("Package".toList, "zlib".toList), ("Version".toList, "1.2.8-r0".toList), ("Architecture".toList, "arm".toList),
    ("Description".toList, "Compression library\nIn two lines".toList)]

def newerBuild : Build where
  fields := newerFields
  file :=
    { basename := "zlib_1.2.8-r0_armel.opk".toList
      control := controlText newerFields
      info := { md5 := "9e107d9d372bb6826bd81d3542a419d6".toList, size := 90112, hexdigest := by decide }
      named := by decide }
  valid := ⟨by decide, by decide, by decide⟩
  written := rfl
  required := by
    simp only [List.forall_mem_cons]
    refine ⟨⟨"zlib".toList, ?_, by decide⟩, ⟨"1.2.8-r0".toList, ?_, by decide⟩,
      ⟨"arm".toList, ?_, by decide⟩, fun _ member => by cases member⟩ <;> simp [newerFields]
  internal := by decide

def newerStamped : Stamped := { file := newerBuild.file, members := [], seconds := 15, whole := true }

theorem newerVersion_valid : ValidVersion "1.2.8-r0".toList := ⟨⟨by decide, by decide⟩, by decide, by decide⟩

theorem newerStamped_sound : newerStamped.Sound := by
  refine sound_of_values newerBuild rfl (by decide) newerVersion_valid (["zlib", "1.2.8-r0",
    "arm", "9e107d9d372bb6826bd81d3542a419d6", "90112", "zlib_1.2.8-r0_armel.opk",
    "Compression library\n In two lines\n"].map String.toList) (by decide +kernel) ?_
  simp [Fits]

theorem files_perm (dir : List Stamped) :
    (files dir).Perm (dir.filter fun stamped => matched stamped.file.basename) :=
  List.perm_insertionSort _ _

theorem mem_files {dir : List Stamped} {stamped : Stamped} :
    stamped ∈ files dir ↔ stamped ∈ dir ∧ matched stamped.file.basename = true := by
  rw [(files_perm dir).mem_iff, List.mem_filter]

theorem listed_files {dir : List Stamped} (distinct : (dir.map fun stamped => stamped.file.basename).Nodup)
    (sound : ∀ stamped ∈ dir, stamped.Sound) : Listed (files dir) where
  distinct := ((files_perm dir).map _).nodup_iff.mpr ((List.filter_sublist.map _).nodup distinct)
  matched _ member := (mem_files.mp member).2
  sound stamped member := sound stamped (mem_files.mp member).1

/-- The names in a directory with both versions, in which the older one is signed -/
def versionsNames : List Text :=
  ["zlib_1.2.7-r0_armel.opk", "zlib_1.2.7-r0_armel.opk.asc", "zlib_1.2.8-r0_armel.opk"].map String.toList

def versionsRound (older : Stamped) (named : older.file.basename = "zlib_1.2.7-r0_armel.opk".toList)
    (sound : older.Sound) (m : Bool) : Round where
  options := { pkg_dir := [], m := m, s := false }
  dir := [older, newerStamped]
  area :=
    { here := fun name => if name ∈ versionsNames then some [] else none
      morgue := fun _ => none }
  listed := by
    refine listed_files ?_ ?_
    · rw [List.map_cons, named]
      decide
    · simpa using And.intro sound newerStamped_sound
  here stamped member := by
    have either := (mem_files.mp member).1
    simp only [List.mem_cons, List.not_mem_nil, or_false] at either
    rcases either with rfl | rfl
    · rw [named]
      rfl
    · rfl

theorem describedStamped_basename : describedStamped.file.basename = "zlib_1.2.7-r0_armel.opk".toList := rfl

theorem sectionStamped_basename : sectionStamped.file.basename = "zlib_1.2.7-r0_armel.opk".toList := rfl

def bothRound : Round :=
  versionsRound describedStamped describedStamped_basename describedStamped_sound false

def changedRound : Round :=
  versionsRound sectionStamped sectionStamped_basename sectionStamped_sound false

/-- The newer version is as it was. -/
theorem changed_disciplined : Disciplined bothRound changedRound := by
  intro stamped member stamped' member' names whole seconds
  have before : stamped ∈ [describedStamped, newerStamped] := (mem_files.mp member).1
  have after : stamped' ∈ [sectionStamped, newerStamped] := (mem_files.mp member').1
  simp only [List.mem_cons, List.not_mem_nil, or_false] at before after
  rcases before with rfl | rfl
  · rcases after with rfl | rfl
    · exact absurd seconds (by decide)
    · exact absurd seconds (by decide)
  · rcases after with rfl | rfl
    · exact absurd seconds (by decide)
    · rfl

/-- The second run takes the newer version from the index of the first. -/
theorem incremental_index_changed :
    ∃ disk' packages printed, runs keysInOrder ([bothRound] ++ [changedRound]) newDisk = some disk' ∧
      (∅ : Packages).addFiles ((files changedRound.dir).map Stamped.file) = some (packages, printed) ∧
      disk'.index = some (indexText [] packages) := by
  have writes : ∀ round ∈ [bothRound] ++ [changedRound], round.options.s = false := by
    intro round member
    cases member with
    | head => rfl
    | tail _ member => exact List.mem_singleton.mp member ▸ rfl
  exact incremental_index keysInOrder [bothRound] changedRound newDisk rfl writes
    (List.isChain_cons_cons.mpr ⟨changed_disciplined, .singleton _⟩)

/-! ## A run with `-s` in between -/

/-- The package that an index has for a file, or the one in the file -/
def outdated (seen : List Stamped) (packages : Packages) (stamped : Stamped) : PackageFile :=
  match seen.find? fun before => before.file.basename = stamped.file.basename ∧ offers packages before with
  | some before => before.file
  | none => stamped.file

theorem remembered_outdated {stamped : Stamped} (whole : stamped.whole = true)
    (stamp : stamps.lookup stamped.file.basename = some stamped.seconds) :
    (remembered seen packages stamps stamped).file = outdated seen packages stamped := by
  rw [remembered, outdated]
  cases seen.find? fun before => before.file.basename = stamped.file.basename ∧ offers packages before with
  | none => rfl
  | some before => simp [whole, stamp]

theorem runs_append {earlier later : List Round} {middle : Disk} (ran : runs order earlier disk = some middle) :
    runs order (earlier ++ later) disk = runs order later middle := by
  rw [runs, List.foldlM_append, ← runs, ran]
  rfl

/-- A run with `-s` takes note of the times and not of the packages: the run after it finds no change. -/
theorem shown_changes_hidden (order : HashOrder) (rounds : List Round) (before shown after : Round) (disk : Disk)
    (new : disk.index = none) (writes : ∀ round ∈ rounds ++ [before], round.options.s = false)
    (disciplined : (rounds ++ [before]).IsChain Disciplined) (shows : shown.options.s = true)
    (last : after.options.s = false) (same : after.dir = shown.dir)
    (whole : ∀ stamped ∈ files after.dir, stamped.whole = true) :
    ∃ disk' packages printed packages' printed',
      runs order (rounds ++ [before] ++ [shown, after]) disk = some disk' ∧
      (∅ : Packages).addFiles ((files before.dir).map Stamped.file) = some (packages, printed) ∧
      (∅ : Packages).addFiles ((files after.dir).map (outdated (files before.dir) packages)) =
        some (packages', printed') ∧
      disk'.index = some (indexText [] packages') := by
  obtain ⟨middle, ran, current⟩ := @runs_current order disk rounds before new writes disciplined
  obtain ⟨packages, stamps, indexes, holds, -⟩ := current.holds
  obtain ⟨printed, added⟩ := indexes.added
  -- the run with `-s`
  obtain ⟨old, stamps', read, recalls, alike, unspaced⟩ := holds.read indexes current.listed
  obtain ⟨noted, stamps'', ranShown, holds', restamped⟩ :=
    Round.run_shows shows read unspaced (recalls.chosen current.listed shown.listed alike) holds.index
  -- the run after it
  obtain ⟨old', stamps₃, read', recalls', alike', unspaced'⟩ := holds'.read indexes current.listed
  obtain ⟨disk', packages', stamps₄, ranAfter, indexes', final, -⟩ :=
    Round.run_holds last read' unspaced' (recalls'.chosen current.listed after.listed alike')
  obtain ⟨printed', added'⟩ := indexes'.added
  refine ⟨disk', packages, printed, packages', printed', ?_, added, ?_, final.index⟩
  · rw [runs_append ran, runs, List.foldlM_cons, ranShown]
    simp only [Option.bind_eq_bind, Option.bind_some, List.foldlM_cons, ranAfter]
    rfl
  · have taken : ((files after.dir).map (remembered (files before.dir) packages stamps'')).map Stamped.file =
        (files after.dir).map (outdated (files before.dir) packages) := by
      rw [List.map_map]
      refine List.map_congr_left fun stamped member => ?_
      exact remembered_outdated (whole stamped member) (restamped.stamped stamped (same ▸ member))
    rw [← taken]
    exact added'

theorem shown_changes_hidden_section :
    ∃ disk' packages printed packages' printed',
      runs keysInOrder ([] ++ [describedRound] ++ [sectionRound true, sectionRound false]) newDisk = some disk' ∧
      (∅ : Packages).addFiles ((files describedRound.dir).map Stamped.file) = some (packages, printed) ∧
      (∅ : Packages).addFiles ((files (sectionRound false).dir).map
        (outdated (files describedRound.dir) packages)) = some (packages', printed') ∧
      disk'.index = some (indexText [] packages') := by
  have writes : ∀ round ∈ [] ++ [describedRound], round.options.s = false := by
    intro round member
    exact List.mem_singleton.mp member ▸ rfl
  have whole : ∀ stamped ∈ files (sectionRound false).dir, stamped.whole = true := by
    intro stamped member
    rw [sectionRound_files, List.mem_singleton] at member
    exact member ▸ rfl
  exact shown_changes_hidden keysInOrder [] describedRound (sectionRound true) (sectionRound false) newDisk rfl writes
    (.singleton _) rfl rfl rfl whole

end BotBrew.Opkg.MakeIndex
