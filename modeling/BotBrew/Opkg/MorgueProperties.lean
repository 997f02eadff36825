import Mathlib.Data.List.Chain
import BotBrew.Opkg.MakeIndexRuns

/-! What `opkg-make-index -m` moves to the morgue, and that the index needs none of it. -/

set_option autoImplicit false

namespace BotBrew.Opkg.MakeIndex

open Text

/-! ## Moving files -/

variable {area : Area} {name moved : Text}

theorem rename_here : (area.rename moved).here name = if name = moved then none else area.here name := by
  unfold Area.rename
  by_cases same : name = moved
  · subst same
    rw [if_pos rfl]
    split
    · assumption
    · exact Function.update_self ..
  · rw [if_neg same]
    split
    · rfl
    · exact Function.update_of_ne same ..

theorem rename_morgue : (area.rename moved).morgue name =
    if name = moved then (area.here name).or (area.morgue name) else area.morgue name := by
  unfold Area.rename
  by_cases same : name = moved
  · subst same
    rw [if_pos rfl]
    split
    · next missing => rw [missing, Option.none_or]
    · next content present =>
      rw [present, Option.some_or]
      exact Function.update_self ..
  · rw [if_neg same]
    split
    · rfl
    · exact Function.update_of_ne same ..

theorem renames_here (names : List Text) :
    (names.foldl Area.rename area).here name = if name ∈ names then none else area.here name := by
  induction names generalizing area with
  | nil => rfl
  | cons moved names hypothesis =>
    rw [List.foldl_cons, hypothesis, rename_here]
    by_cases same : name = moved
    · simp [same]
    · simp [same]

theorem renames_morgue (names : List Text) : (names.foldl Area.rename area).morgue name =
    if name ∈ names then (area.here name).or (area.morgue name) else area.morgue name := by
  induction names generalizing area with
  | nil => rfl
  | cons moved names hypothesis =>
    rw [List.foldl_cons, hypothesis, rename_here, rename_morgue]
    by_cases same : name = moved
    · simp [same]
    · simp [same]

/-- A package file and its signature -/
def withSignature (filename : Text) : List Text := [filename, filename ++ ".asc".toList]

theorem to_morgue_eq (surplus : List Text) :
    surplus.foldl Area.to_morgue area = (surplus.flatMap withSignature).foldl Area.rename area := by
  induction surplus generalizing area with
  | nil => rfl
  | cons moved surplus hypothesis =>
    rw [List.foldl_cons, hypothesis, List.flatMap_cons, List.foldl_append]
    rfl

theorem withSignature_eq {stampeds : List Stamped} (listed : Listed stampeds) {stamped other : Stamped}
    (member : stamped ∈ stampeds) (member' : other ∈ stampeds) (own : name ∈ withSignature stamped.file.basename)
    (own' : name ∈ withSignature other.file.basename) : stamped = other := by
  refine listed.eq_of_basename member member' ?_
  simp only [withSignature, List.mem_cons, List.not_mem_nil, or_false] at own own'
  cases own with
  | inl file =>
    subst file
    exact own'.resolve_right (matched_unsigned (listed.matched stamped member) other.file.basename)
  | inr signature =>
    subst signature
    cases own' with
    | inl file => exact absurd file.symm (matched_unsigned (listed.matched other member') stamped.file.basename)
    | inr signature => exact List.append_cancel_right signature

/-! ## What `-m` leaves -/

/-- The packages that are not in the index have gone to the morgue with their signatures, and nothing else has. -/
structure Trimmed (before after : Area) (dir : List Stamped) (packages : Packages) : Prop where
  moved : ∀ stamped ∈ files dir, packages.lookup stamped.pkg.key ≠ some stamped.pkg →
    ∀ name ∈ withSignature stamped.file.basename,
      after.here name = none ∧ after.morgue name = (before.here name).or (before.morgue name)
  listed : ∀ stamped ∈ files dir, packages.lookup stamped.pkg.key = some stamped.pkg →
    ∀ name ∈ withSignature stamped.file.basename,
      after.here name = before.here name ∧ after.morgue name = before.morgue name
  others : ∀ name, (∀ stamped ∈ files dir, name ∉ withSignature stamped.file.basename) →
    after.here name = before.here name ∧ after.morgue name = before.morgue name

variable {order : HashOrder} {disk disk' : Disk} {round : Round} {packages : Packages}
  {old : AList fun _ : Option Text => Package} {stamps : Stamps}

theorem Round.run_trims (m : round.options.m = true) (read : disk.read order = some (old, stamps))
    (chosen : Chosen old stamps id (files round.dir)) (ran : round.run order disk = some disk')
    (indexes : Indexes (files round.dir) packages) : Trimmed round.area disk'.area round.dir packages := by
  obtain ⟨packages', printed, loop', added, looped, follows⟩ := round.loop_follows read chosen
  have indexes' := follows.indexes chosen added
  rw [List.map_id] at indexes'
  obtain rfl := indexes'.unique indexes
  have area : disk'.area = (loop'.surplus.flatMap withSignature).foldl Area.rename round.area := by
    rw [(round.run_cases looped ran).1, follows.area, if_pos m, to_morgue_eq]
  have member : ∀ name, name ∈ loop'.surplus.flatMap withSignature ↔ ∃ stamped ∈ files round.dir,
      packages'.lookup stamped.pkg.key ≠ some stamped.pkg ∧ name ∈ withSignature stamped.file.basename := by
    intro name
    rw [List.mem_flatMap]
    constructor
    · intro known
      obtain ⟨moved, inSurplus, own⟩ := known
      obtain ⟨stamped, inFiles, rfl, unlisted⟩ := (follows.surplus moved).mp inSurplus
      exact ⟨stamped, inFiles, unlisted, own⟩
    · intro known
      obtain ⟨stamped, inFiles, unlisted, own⟩ := known
      exact ⟨stamped.file.basename, (follows.surplus _).mpr ⟨stamped, inFiles, rfl, unlisted⟩, own⟩
  have kept : ∀ name, name ∉ loop'.surplus.flatMap withSignature →
      disk'.area.here name = round.area.here name ∧ disk'.area.morgue name = round.area.morgue name := by
    intro name outside
    rw [area, renames_here, renames_morgue, if_neg outside, if_neg outside]
    exact ⟨rfl, rfl⟩
  refine ⟨fun stamped inFiles unlisted name own => ?_, fun stamped inFiles entry name own => ?_,
    fun name outside => ?_⟩
  · have inside := (member name).mpr ⟨stamped, inFiles, unlisted, own⟩
    rw [area, renames_here, renames_morgue, if_pos inside, if_pos inside]
    exact ⟨rfl, rfl⟩
  · refine kept name fun inside => ?_
    obtain ⟨other, inFiles', unlisted, own'⟩ := (member name).mp inside
    exact unlisted (withSignature_eq round.listed inFiles inFiles' own own' ▸ entry)
  · refine kept name fun inside => ?_
    obtain ⟨stamped, inFiles, -, own⟩ := (member name).mp inside
    exact outside stamped inFiles own

/-! ## The index of what is left -/

theorem files_filter_perm (dir : List Stamped) (keep : Stamped → Bool) :
    (files (dir.filter keep)).Perm ((files dir).filter keep) := by
  refine (files_perm _).trans ?_
  rw [List.filter_filter]
  have swap := ((files_perm dir).filter keep).symm
  rw [List.filter_filter] at swap
  simpa only [Bool.and_comm] using swap

theorem listed_filter {dir : List Stamped} (listed : Listed (files dir)) (keep : Stamped → Bool) :
    Listed (files (dir.filter keep)) := by
  have perm := files_filter_perm dir keep
  have sub : ∀ stamped ∈ files (dir.filter keep), stamped ∈ files dir :=
    fun stamped member => (List.mem_filter.mp (perm.mem_iff.mp member)).1
  refine ⟨?_, fun stamped member => listed.matched stamped (sub stamped member),
    fun stamped member => listed.sound stamped (sub stamped member)⟩
  exact (perm.map _).nodup_iff.mpr (((List.filter_sublist).map _).nodup listed.distinct)

/-- The packages of the index are all that the index is made of. -/
theorem Indexes.filter {dir : List Stamped} (indexes : Indexes (files dir) packages) (listed : Listed (files dir))
    {keep : Stamped → Bool}
    (keeps : ∀ stamped ∈ files dir, keep stamped = true ↔ packages.lookup stamped.pkg.key = some stamped.pkg) :
    ∃ packages', Indexes (files (dir.filter keep)) packages' ∧ indexText [] packages' = indexText [] packages := by
  have member : ∀ stamped, stamped ∈ files (dir.filter keep) ↔
      stamped ∈ files dir ∧ packages.lookup stamped.pkg.key = some stamped.pkg := by
    intro stamped
    rw [(files_filter_perm dir keep).mem_iff, List.mem_filter]
    exact and_congr_right (keeps stamped)
  obtain ⟨packages', indexes'⟩ := Indexes.exists (listed_filter listed keep)
  have back : ∀ key entry, packages'.lookup key = some entry → packages.lookup key = some entry := by
    intro key entry found
    obtain ⟨stamped, inKept, rfl, rfl⟩ := indexes'.entry found
    exact ((member stamped).mp inKept).2
  have forth : ∀ key entry, packages.lookup key = some entry → packages'.lookup key = some entry := by
    intro key entry found
    obtain ⟨stamped, inFiles, rfl, rfl⟩ := indexes.entry found
    have inKept := (member stamped).mpr ⟨inFiles, found⟩
    obtain ⟨current, found', -⟩ := indexes'.newest.newest stamped.pkg (List.mem_map_of_mem inKept)
    have same := back _ current found'
    rw [found, Option.some.injEq] at same
    rw [found', same]
  refine ⟨packages', indexes', (Packages.Alike.printed ⟨fun key => ?_, fun key pkg other found found' => ?_⟩)⟩
  · rw [← AList.lookup_isSome, ← AList.lookup_isSome, Option.isSome_iff_exists, Option.isSome_iff_exists]
    exact exists_congr fun entry => ⟨back key entry, forth key entry⟩
  · have same := back key pkg found
    rw [found', Option.some.injEq] at same
    exact same ▸ .refl _

theorem Trimmed.keeps {before after : Area} {dir : List Stamped} (trimmed : Trimmed before after dir packages)
    (here : ∀ stamped ∈ files dir, (before.here stamped.file.basename).isSome = true) :
    ∀ stamped ∈ files dir, (after.here stamped.file.basename).isSome = true ↔
      packages.lookup stamped.pkg.key = some stamped.pkg := by
  intro stamped inFiles
  have own : stamped.file.basename ∈ withSignature stamped.file.basename := List.mem_cons_self
  constructor
  · intro stays
    by_contra unlisted
    rw [(trimmed.moved stamped inFiles unlisted _ own).1] at stays
    cases stays
  · intro entry
    rw [(trimmed.listed stamped inFiles entry _ own).1]
    exact here stamped inFiles

/-- What the last of several runs starts from, and that it takes the files as they are. -/
theorem runs_prepared {rounds : List Round} {last : Round} (new : disk.index = none)
    (writes : ∀ round ∈ rounds ++ [last], round.options.s = false)
    (disciplined : (rounds ++ [last]).IsChain Disciplined) :
    ∃ middle old stamps, runs order rounds disk = some middle ∧ middle.read order = some (old, stamps) ∧
      Chosen old stamps id (files last.dir) := by
  cases rounds using List.reverseRecOn with
  | nil => exact ⟨disk, ∅, ∅, rfl, by rw [Disk.read, new], Chosen.fresh last.listed ∅⟩
  | append_singleton rounds before =>
    obtain ⟨earlier, -, step⟩ := List.isChain_append.mp disciplined
    have next : Disciplined before last := step before (by simp) last (by simp)
    obtain ⟨middle, ran, current⟩ := @runs_current order disk rounds before new
      (fun round member => writes round (List.mem_append_left [last] member)) earlier
    obtain ⟨packages, stamps, indexes, holds, stamped⟩ := current.holds
    obtain ⟨old, stamps', read, recalls, same, -⟩ := holds.read indexes current.listed
    exact ⟨middle, old, stamps', ran, read, recalls.chosen_same current.listed same stamped next⟩

/-- With `-m`, what is not in the index goes to the morgue, and the index is that of what stays. -/
theorem morgue_unneeded (order : HashOrder) (rounds : List Round) (last : Round) (disk : Disk)
    (new : disk.index = none) (writes : ∀ round ∈ rounds ++ [last], round.options.s = false)
    (disciplined : (rounds ++ [last]).IsChain Disciplined) (m : last.options.m = true) :
    ∃ disk' packages printed packages' printed', runs order (rounds ++ [last]) disk = some disk' ∧
      (∅ : Packages).addFiles ((files last.dir).map Stamped.file) = some (packages, printed) ∧
      Trimmed last.area disk'.area last.dir packages ∧
      (∅ : Packages).addFiles ((files (last.dir.filter fun stamped =>
        (disk'.area.here stamped.file.basename).isSome)).map Stamped.file) = some (packages', printed') ∧
      disk'.index = some (indexText [] packages') := by
  obtain ⟨disk', ran, current⟩ := @runs_current order disk rounds last new writes disciplined
  obtain ⟨packages, stamps, indexes, holds, -⟩ := current.holds
  obtain ⟨printed, added⟩ := indexes.added
  obtain ⟨middle, old, stamps', earlier, read, chosen⟩ := @runs_prepared order disk rounds last new writes disciplined
  have lastRan : last.run order middle = some disk' := by
    rw [runs_append earlier, runs, List.foldlM_cons] at ran
    cases final : last.run order middle with
    | none =>
      rw [final] at ran
      cases ran
    | some disk₂ =>
      rw [final] at ran
      exact ran
  have trimmed := Round.run_trims m read chosen lastRan indexes
  obtain ⟨packages', indexes', same⟩ := indexes.filter last.listed (trimmed.keeps last.here)
  obtain ⟨printed', added'⟩ := indexes'.added
  exact ⟨disk', packages, printed, packages', printed', ran, added, trimmed, added', same ▸ holds.index⟩

def morgueRound : Round :=
  versionsRound describedStamped describedStamped_basename describedStamped_sound true

theorem newer_rank : describedStamped.pkg.rank < newerStamped.pkg.rank := by
  have older : describedStamped.pkg.version = some "1.2.7-r0".toList :=
    @read_pkg _ describedBuild rfl _ Package.version _ (by decide +kernel)
  have newer : newerStamped.pkg.version = some "1.2.8-r0".toList :=
    @read_pkg _ newerBuild rfl _ Package.version _ (by decide +kernel)
  obtain ⟨result, compared, sign⟩ :=
    Package.compare_version_sign describedStamped_sound.valid newerStamped_sound.valid
  have texts : compareTexts "1.2.7-r0".toList "1.2.8-r0".toList = some (-1) := by decide +kernel
  rw [Package.compare_version_eq older newer, texts, Option.some.injEq] at compared
  subst compared
  exact lt_of_not_ge fun above => absurd (sign.nonneg_iff.mpr above) (by decide)

/-- The older version has no entry in the index. -/
theorem older_displaced {packages : Packages} {printed : Text}
    (added : (∅ : Packages).addFiles ((files morgueRound.dir).map Stamped.file) = some (packages, printed)) :
    packages.lookup describedStamped.pkg.key ≠ some describedStamped.pkg := by
  intro entry
  obtain ⟨packages', indexes⟩ := Indexes.exists morgueRound.listed
  obtain ⟨printed', added'⟩ := indexes.added
  rw [added, Option.some.injEq, Prod.mk.injEq] at added'
  obtain ⟨rfl, -⟩ := added'
  have member : newerStamped ∈ files morgueRound.dir :=
    mem_files.mpr ⟨List.mem_cons_of_mem _ List.mem_cons_self, by decide⟩
  obtain ⟨current, found, newest⟩ := indexes.newest.newest newerStamped.pkg (List.mem_map_of_mem member)
  have keys : newerStamped.pkg.key = describedStamped.pkg.key :=
    (@read_pkg _ newerBuild rfl _ Package.key _ (by decide +kernel)).trans
      (@read_pkg _ describedBuild rfl _ Package.key "zlib:arm".toList (by decide +kernel)).symm
  rw [keys, entry, Option.some.injEq] at found
  subst found
  exact absurd newer_rank (not_lt.mpr newest)

/-- The older version goes with its signature, and the newer one stays. -/
theorem morgue_unneeded_older :
    ∃ disk' packages printed packages' printed', runs keysInOrder ([] ++ [morgueRound]) newDisk = some disk' ∧
      (∅ : Packages).addFiles ((files morgueRound.dir).map Stamped.file) = some (packages, printed) ∧
      (∅ : Packages).addFiles ((files (morgueRound.dir.filter fun stamped =>
        (disk'.area.here stamped.file.basename).isSome)).map Stamped.file) = some (packages', printed') ∧
      disk'.index = some (indexText [] packages') ∧
      ∀ name ∈ ["zlib_1.2.7-r0_armel.opk".toList, "zlib_1.2.7-r0_armel.opk.asc".toList],
        disk'.area.here name = none ∧ disk'.area.morgue name = some [] := by
  have writes : ∀ round ∈ [] ++ [morgueRound], round.options.s = false := by
    intro round member
    exact List.mem_singleton.mp member ▸ rfl
  obtain ⟨disk', packages, printed, packages', printed', ran, added, trimmed, added', index⟩ :=
    morgue_unneeded keysInOrder [] morgueRound newDisk rfl writes (.singleton _) rfl
  refine ⟨disk', packages, printed, packages', printed', ran, added, added', index, fun name own => ?_⟩
  have member : describedStamped ∈ files morgueRound.dir := mem_files.mpr ⟨List.mem_cons_self, zlib_matched _⟩
  have moved := trimmed.moved describedStamped member (older_displaced added) name own
  refine ⟨moved.1, moved.2.trans ?_⟩
  simp only [List.mem_cons, List.not_mem_nil, or_false] at own
  rcases own with rfl | rfl <;> rfl

end BotBrew.Opkg.MakeIndex
