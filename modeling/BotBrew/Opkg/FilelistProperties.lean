import Mathlib.Data.List.Chain
import BotBrew.Opkg.MakeIndexRuns

/-! `Packages.filelist` after a run that takes packages from the old index. -/

set_option autoImplicit false

namespace BotBrew.Opkg.MakeIndex

open Text

/-- A run takes the package of this file from the index of those. -/
def unchanged (seen : List Stamped) (packages : Packages) (stamped : Stamped) : Bool :=
  seen.any fun before => before.file.basename = stamped.file.basename ∧ offers packages before = true ∧
    stamped.whole = true ∧ before.seconds = stamped.seconds

/-- A file as `Packages.filelist` has it: empty, if its package is from the old index. -/
def asListed (seen : List Stamped) (packages : Packages) (stamped : Stamped) : Stamped :=
  if unchanged seen packages stamped then { stamped with members := [] } else stamped

variable {order : HashOrder} {options : Options} {seen : List Stamped} {packages packages' : Packages}
  {stamps stamps' : Stamps} {old : AList fun _ : Option Text => Package} {stamped : Stamped} {disk : Disk}
  {round : Round}

theorem asListed_file (seen : List Stamped) (packages : Packages) (stamped : Stamped) :
    (asListed seen packages stamped).file = stamped.file := by
  rw [asListed]
  split <;> rfl

theorem asListed_pkg (seen : List Stamped) (packages : Packages) (stamped : Stamped) :
    (asListed seen packages stamped).pkg = stamped.pkg := by
  rw [Stamped.pkg, Stamped.pkg, asListed_file]

theorem files_map {image : Stamped → Stamped} (same : ∀ stamped, (image stamped).file = stamped.file)
    (dir : List Stamped) : files (dir.map image) = (files dir).map image := by
  have matches' : ((fun stamped : Stamped => matched stamped.file.basename) ∘ image) =
      fun stamped => matched stamped.file.basename := funext fun stamped => by simp only [Function.comp_apply, same]
  rw [files, files, List.filter_map, matches']
  refine (List.map_insertionSort _ _ image _ fun first _ second _ => ?_).symm
  rw [same, same]

/-- Which packages are taken from the old index -/
theorem Recalls.reused_isSome (recalls : Recalls seen packages old)
    (same : ∀ name, stamps'.lookup name = stamps.lookup name)
    (times : ∀ stamped ∈ seen, stamps.lookup stamped.file.basename = some stamped.seconds) :
    (reused old stamps' stamped).isSome = unchanged seen packages stamped := by
  rw [Bool.eq_iff_iff, unchanged, List.any_eq_true, Option.isSome_iff_exists, reused, same]
  constructor
  · intro taken
    obtain ⟨pkg, taken⟩ := taken
    split at taken
    · next stamp =>
      obtain ⟨before, inSeen, basename, offered, -⟩ := recalls.known _ _ taken
      have seconds := times before inSeen
      rw [basename, stamp.2, Option.some.injEq] at seconds
      exact ⟨before, inSeen, decide_eq_true ⟨basename, offered, stamp.1, seconds.symm⟩⟩
    · cases taken
  · intro known
    obtain ⟨before, inSeen, all⟩ := known
    obtain ⟨basename, offered, whole, seconds⟩ := of_decide_eq_true all
    obtain ⟨pkg, found, -⟩ := recalls.found before inSeen offered
    have stamp := times before inSeen
    rw [basename, seconds] at stamp
    rw [basename] at found
    exact ⟨pkg, by rw [if_pos ⟨whole, stamp⟩, found]⟩

/-- The same directory, in which the files that a run takes from the old index are empty -/
def Round.asListed (round : Round) (seen : List Stamped) (packages : Packages) : Round where
  options := round.options
  dir := round.dir.map (MakeIndex.asListed seen packages)
  area := round.area
  listed := by
    have file := MakeIndex.asListed_file seen packages
    rw [files_map file]
    refine ⟨?_, List.forall_mem_map.mpr fun stamped member => ?_, List.forall_mem_map.mpr fun stamped member => ?_⟩
    · rw [List.map_map]
      simpa only [Function.comp_def, file] using round.listed.distinct
    · exact file stamped ▸ round.listed.matched stamped member
    · exact sound_congr (round.listed.sound stamped member) (file stamped)
  here := by
    rw [files_map (MakeIndex.asListed_file seen packages)]
    refine List.forall_mem_map.mpr fun stamped member => ?_
    rw [MakeIndex.asListed_file]
    exact round.here stamped member

theorem Round.asListed_files (round : Round) (seen : List Stamped) (packages : Packages) :
    files (round.asListed seen packages).dir = (files round.dir).map (MakeIndex.asListed seen packages) :=
  files_map (asListed_file seen packages) round.dir

/-- What a run leaves, by what its loop leaves -/
theorem Round.run_follows {target : Stamped → Stamped} (writes : round.options.s = false)
    (read : disk.read order = some (old, stamps)) (unspaced : ∀ name ∈ stamps, Unspaced name)
    (chosen : Chosen old stamps target (files round.dir)) : ∃ packages printed loop' disk',
      (∅ : Packages).addFiles ((files round.dir).map fun stamped => (target stamped).file) = some (packages, printed) ∧
      Follows round.options old stamps round.area target (files round.dir) packages loop' ∧
      round.run order disk = some disk' ∧ disk'.index = some (stanzas 1 packages.entries) ∧
      disk'.filelist = loop'.filelist := by
  obtain ⟨packages, printed, loop', added, looped, follows⟩ := round.loop_follows read chosen
  obtain ⟨disk', -, -, ran, -⟩ := Round.run_holds writes read unspaced chosen
  obtain ⟨index, filelist⟩ := (round.run_cases looped ran).2 writes
  exact ⟨packages, printed, loop', disk', added, follows, ran, follows.index ▸ index, filelist⟩

/-- A loop over the old index lists what one without it lists of the files that are empty where the index has them. -/
theorem Follows.filelist_asListed {area area' : Area} {options' : Options} {first second : Loop} {dir : List Stamped}
    (follows : Follows options old stamps' area id dir packages' first) (chosen : Chosen old stamps' id dir)
    (listed : Listed dir) (here : ∀ stamped ∈ dir, (area.here stamped.file.basename).isSome = true)
    (follows' : Follows options' ∅ ∅ area' id (dir.map (asListed seen packages)) packages' second)
    (listed' : Listed (dir.map (asListed seen packages)))
    (here' : ∀ stamped ∈ dir.map (asListed seen packages), (area'.here stamped.file.basename).isSome = true)
    (reuses : ∀ stamped, (reused old stamps' stamped).isSome = unchanged seen packages stamped) :
    first.filelist = second.filelist := by
  have names : first.packages.names = second.packages.names := follows.alike.names.symm.trans follows'.alike.names
  let members (name : Text) : List Text := (get_file_list first.area (first.fn name)).getD []
  have lists : ∀ name ∈ first.packages.names, get_file_list first.area (first.fn name) = some (members name) ∧
      get_file_list second.area (second.fn name) = some (members name) := by
    intro name member
    obtain ⟨stamped, inDir, entry, rfl⟩ := follows.named member
    have inImage : asListed seen packages stamped ∈ dir.map (asListed seen packages) := List.mem_map_of_mem inDir
    have list := follows.entry_list chosen listed inDir entry (here stamped inDir)
    have list' := follows'.entry_list (Chosen.fresh listed' ∅) listed' inImage
      (by rw [id_eq, asListed_pkg]; exact entry) (here' _ inImage)
    have none : (reused ∅ ∅ (asListed seen packages stamped)).isSome = false := by
      rw [reused]
      split <;> rfl
    simp only [id_eq, asListed_pkg, none, if_neg Bool.false_ne_true] at list list'
    simp only [members, id_eq, list, list', Option.getD_some, reuses, asListed, true_and]
    split <;> rfl
  rw [filelist_eq fun name member => (lists name member).1,
    filelist_eq fun name member => (lists name (names ▸ member)).2, names]

/-- A run lists the files of the packages that it has read, and none of those from the old index. -/
theorem filelist_of_read (order : HashOrder) (rounds : List Round) (before last : Round) (disk : Disk)
    (new : disk.index = none) (writes : ∀ round ∈ rounds ++ [before], round.options.s = false)
    (disciplined : (rounds ++ [before] ++ [last]).IsChain Disciplined) (writesLast : last.options.s = false) :
    ∃ disk' disk₀ packages printed, runs order (rounds ++ [before] ++ [last]) disk = some disk' ∧
      (∅ : Packages).addFiles ((files before.dir).map Stamped.file) = some (packages, printed) ∧
      (last.asListed (files before.dir) packages).run order disk = some disk₀ ∧
      disk'.filelist = disk₀.filelist ∧ disk'.index = disk₀.index := by
  obtain ⟨earlier, -, step⟩ := List.isChain_append.mp disciplined
  have next : Disciplined before last := step before (by simp) last (by simp)
  obtain ⟨middle, ran, current⟩ := @runs_current order disk rounds before new writes earlier
  obtain ⟨packages, stamps, indexes, holds, times⟩ := current.holds
  obtain ⟨printed, added⟩ := indexes.added
  obtain ⟨old, stamps', read, recalls, same, unspaced⟩ := holds.read indexes current.listed
  have chosen := recalls.chosen_same current.listed same times next
  -- the run over the old index
  obtain ⟨packages', printed', loop', disk', added', follows, ranLast, index, filelist⟩ :=
    last.run_follows writesLast read unspaced chosen
  -- the run that reads all packages
  let blank := last.asListed (files before.dir) packages
  have read₀ : disk.read order = some (∅, ∅) := by rw [Disk.read, new]
  obtain ⟨packages₀, printed₀, loop₀, disk₀, added₀, follows₀, ran₀, index₀, filelist₀⟩ :=
    blank.run_follows writesLast read₀ (fun _ member => absurd member (AList.notMem_empty _))
      (Chosen.fresh blank.listed ∅)
  have blankFiles : files blank.dir = (files last.dir).map (asListed (files before.dir) packages) :=
    last.asListed_files _ _
  have sameFiles : (files blank.dir).map (fun stamped => (id stamped).file) =
      (files last.dir).map fun stamped => (id stamped).file := by
    rw [blankFiles, List.map_map]
    exact List.map_congr_left fun stamped _ => asListed_file _ _ stamped
  rw [sameFiles, added', Option.some.injEq, Prod.mk.injEq] at added₀
  obtain ⟨rfl, -⟩ := added₀
  refine ⟨disk', disk₀, packages, printed, ?_, added, ran₀, ?_, ?_⟩
  · rw [runs_append ran, runs, List.foldlM_cons, ranLast]
    rfl
  · rw [filelist, filelist₀]
    exact follows.filelist_asListed chosen last.listed last.here (blankFiles ▸ follows₀) (blankFiles ▸ blank.listed)
      (blankFiles ▸ blank.here) fun stamped => recalls.reused_isSome same times
  · rw [index, index₀]

def listedStamped : Stamped := { describedStamped with members := ["usr/lib/libz.so.1".toList] }

theorem listedStamped_matched : matched listedStamped.file.basename = true := zlib_matched _

theorem listedStamped_sound : listedStamped.Sound := sound_congr describedStamped_sound rfl

def listedRound : Round := .single listedStamped listedStamped_matched listedStamped_sound false

theorem listed_disciplined : Disciplined listedRound listedRound := by
  have dir : files listedRound.dir = [listedStamped] := files_single listedStamped_matched
  intro stamped member stamped' member' _ _ _
  rw [dir, List.mem_singleton] at member member'
  rw [member, member']

theorem filelist_of_read_listed :
    ∃ disk' disk₀ packages printed,
      runs keysInOrder ([] ++ [listedRound] ++ [listedRound]) newDisk = some disk' ∧
      (∅ : Packages).addFiles ((files listedRound.dir).map Stamped.file) = some (packages, printed) ∧
      (listedRound.asListed (files listedRound.dir) packages).run keysInOrder newDisk = some disk₀ ∧
      disk'.filelist = disk₀.filelist ∧ disk'.index = disk₀.index := by
  have writes : ∀ round ∈ [] ++ [listedRound], round.options.s = false := by
    intro round member
    exact List.mem_singleton.mp member ▸ rfl
  exact filelist_of_read keysInOrder [] listedRound listedRound newDisk rfl writes
    (List.isChain_cons_cons.mpr ⟨listed_disciplined, .singleton _⟩) rfl

end BotBrew.Opkg.MakeIndex
