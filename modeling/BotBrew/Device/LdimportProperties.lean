import BotBrew.Device.Ldimport
import BotBrew.FileSystem.WalkProperties
import Mathlib.Data.List.Nodup

/-! What `ldimport` makes of `/system/lib`, and when a second run changes nothing. -/

set_option autoImplicit false

namespace BotBrew.Ldimport

open FileSystem

/-- The prefix is mounted, and `/system/lib` and the prefix are not reached through links. -/
structure Mounted (base : Prefix) (files : Files) : Prop where
  system : Real files systemLib
  lib : Real files base.lib

/-- A link of `/system/lib` that leads to a library of the prefix, there or missing. -/
def IsImport (base : Prefix) (limit : Nat) (files : Files) (path : Path) : Prop :=
  ∃ item target link, path = systemLib ++ [item] ∧ files path = some (.link target) ∧
    readlink files limit path = some link ∧ base.isLibrary link = true

/-- What one run is meant to do. `readlink -f` needs every directory on the way: a link below
one that is missing has no result, and does not count as a link into the prefix. -/
structure Imported (base : Prefix) (limit : Nat) (files after : Files) : Prop where
  kept : ∀ path node, files path = some node → ¬IsImport base limit files path → after path = some node
  live : ∀ item link, (resolve after limit (systemLib ++ [item])).result = .missing link →
    base.isLibrary link = true → exists? after limit (data link) = true
  linked : ∀ item, Shell.isHidden item = false → (files (base.lib ++ [item])).isSome = true →
    after (systemLib ++ [item]) = some (.link (base.target item)) ∨ (files (systemLib ++ [item])).isSome = true
  others : ∀ path, files path = none → (after path).isSome = true →
    ∃ item, path = systemLib ++ [item] ∧ Shell.isHidden item = false ∧ (files (base.lib ++ [item])).isSome = true

/-- A run of `ldimport`, whatever the order of its listings, changes nothing. -/
def Unchanged (base : Prefix) (limit : Nat) (files : Files) : Prop :=
  ∀ listing : Path → List Text, Lists files systemLib (listing systemLib) →
    Lists files base.lib (listing base.lib) → (ldimport base limit listing files).1 = files

/-- The stale links that the first loop removes: those that lead through no stale link listed
before them. -/
def isGone (base : Prefix) (limit : Nat) (listing : List Text) (files : Files) (item : Text) : Bool :=
  item ∈ listing ∧ isStale base limit files item = true ∧
    ∀ earlier ∈ listing.takeWhile (· ≠ item), isStale base limit files earlier = true →
      systemLib ++ [earlier] ∉ (resolve files limit (systemLib ++ [item])).links

def without (names : List Text) (files : Files) : Files :=
  fun path => if ∃ name ∈ names, path = systemLib ++ [name] then none else files path

def linked (base : Prefix) (names : List Text) (files : Files) : Files :=
  fun path => (files path).or
    ((names.find? fun name => path = systemLib ++ [name]).map fun name => .link (base.target name))

def cleaned (base : Prefix) (limit : Nat) (listing : List Text) (files : Files) : Files :=
  without (listing.filter (isGone base limit listing files)) files

/-- The tree without its stale links, and with a link for each library whose name is free. -/
def layout (base : Prefix) (limit : Nat) (system lib : List Text) (files : Files) : Files :=
  linked base (expand lib) (cleaned base limit system files)

/-- An `ln` that finds its second operand to be a directory without that name. -/
structure Misplaced (limit : Nat) (files : Files) (item : Text) (place : Path) : Prop where
  leads : (resolve files limit (systemLib ++ [item])).result = .found place
  directory : isDirectory files place = true
  free : files (place ++ [item]) = none

/-- There is a library, no name of a library stands for a directory without that name, and
no link that is hidden or leads through a new one dangles without a file under `/data`. -/
structure Unobstructed (base : Prefix) (limit : Nat) (system lib : List Text) (files : Files) : Prop where
  listed : lib ≠ [] ∨ (files (systemLib ++ [['*']])).isSome = true
  placed : ∀ item ∈ expand lib, ∀ place, ¬Misplaced limit (layout base limit system lib files) item place
  dangling : ∀ item link,
    (Shell.isHidden item = true ∨ ∃ fresh ∈ expand lib, cleaned base limit system files (systemLib ++ [fresh]) = none ∧
      systemLib ++ [fresh] ∈ (resolve (layout base limit system lib files) limit (systemLib ++ [item])).links) →
    (resolve (layout base limit system lib files) limit (systemLib ++ [item])).result = .missing link →
    base.isLibrary link = true → exists? (layout base limit system lib files) limit (data link) = true

variable {base : Prefix} {limit : Nat} {files : Files} {system lib : List Text} {item : Text}

/-! ## Paths -/

theorem Prefix.below_ne (base : Prefix) (path : Path) (item : Text) : base.lib ++ path ≠ systemLib ++ [item] := by
  intro same
  cases empty : base.path with
  | nil =>
    rw [Prefix.lib, empty] at same
    exact absurd (List.cons.inj same).1 (by decide)
  | cons first rest =>
    have within : systemLib <+: base.lib ++ path := ⟨[item], same.symm⟩
    have long : systemLib.length ≤ base.lib.length := by simp [systemLib, Prefix.lib, empty]
    exact base.apart (List.prefix_of_prefix_length_le within (List.prefix_append _ _) long)

theorem Prefix.library_ne (base : Prefix) {link : Path} (library : base.isLibrary link = true) (item : Text) :
    link ≠ systemLib ++ [item] := by
  obtain ⟨⟨path, rfl⟩, _⟩ : base.lib <+: link ∧ link ≠ base.lib := by simpa [Prefix.isLibrary] using library
  exact base.below_ne path item

theorem Prefix.lib_ne (base : Prefix) : base.lib ≠ systemLib := by
  intro same
  exact base.apart (same ▸ List.prefix_rfl)

theorem systemLib_inj {first second : Text} (same : systemLib ++ [first] = systemLib ++ [second]) :
    first = second :=
  List.singleton_inj.mp (List.append_cancel_left same)

theorem isStale_iff :
    isStale base limit files item = true ↔
      ∃ link, (resolve files limit (systemLib ++ [item])).result = .missing link ∧
        base.isLibrary link = true ∧ exists? files limit (data link) = false := by
  rw [isStale, exists?, readlink]
  cases (resolve files limit (systemLib ++ [item])).result with
  | found path => simp
  | failed => simp
  | missing path =>
    cases library : base.isLibrary path <;> simp [library]

theorem isStale_link (real : Real files systemLib) (stale : isStale base limit files item = true) :
    ∃ target, files (systemLib ++ [item]) = some (.link target) := by
  obtain ⟨link, missing, library, _⟩ := isStale_iff.mp stale
  apply real.link_of_lost limit
  · apply Option.isSome_iff_ne_none.mpr
    intro absent
    rw [real.resolve_absent absent] at missing
    exact base.library_ne library item (Result.missing.inj missing).symm
  · rw [exists?, missing]

theorem isStale_lost (stale : isStale base limit files item = true) :
    exists? files limit (systemLib ++ [item]) = false := by
  obtain ⟨link, missing, _⟩ := isStale_iff.mp stale
  rw [exists?, missing]

/-! ## Removed and added links -/

theorem without_gone {names : List Text} (goes : item ∈ names) : without names files (systemLib ++ [item]) = none :=
  if_pos ⟨item, goes, rfl⟩

theorem without_other {names : List Text} {path : Path} (other : ∀ name, path ≠ systemLib ++ [name]) :
    without names files path = files path :=
  if_neg fun ⟨name, _, same⟩ => other name same

theorem without_absent {names : List Text} {path : Path} (absent : without names files path = none) :
    files path = none ∨ ∃ name ∈ names, path = systemLib ++ [name] := by
  rw [without] at absent
  split at absent
  case isTrue goes => exact .inr goes
  case isFalse => exact .inl absent

theorem without_nil : without [] files = files := by
  funext path
  exact if_neg (by simp)

theorem without_snoc {names : List Text} :
    without (names ++ [item]) files = remove (without names files) (systemLib ++ [item]) := by
  funext path
  cases Decidable.em (path = systemLib ++ [item]) with
  | inl same => simp [without, remove, same]
  | inr other =>
    simp only [without, remove, other, if_false]
    simp [List.mem_append, or_and_right, exists_or, other]

theorem fewer_without (real : Real files systemLib) {names : List Text}
    (stale : ∀ name ∈ names, isStale base limit files name = true) : Fewer (without names files) files where
  kept path node found := by
    rw [without] at found
    split at found
    · cases found
    · exact found
  links path node there goes := by
    obtain absent | ⟨name, member, rfl⟩ := without_absent goes
    · simp [absent] at there
    · obtain ⟨target, found⟩ := isStale_link real (stale name member)
      exact ⟨target, Option.some.inj (there.symm.trans found)⟩

theorem linked_there {names : List Text} {path : Path} (there : (files path).isSome = true) :
    linked base names files path = files path := by
  obtain ⟨node, found⟩ := Option.isSome_iff_exists.mp there
  rw [linked, found, Option.some_or]

theorem linked_item {names : List Text} (free : files (systemLib ++ [item]) = none) (member : item ∈ names) :
    linked base names files (systemLib ++ [item]) = some (.link (base.target item)) := by
  rw [linked, free, Option.none_or]
  cases found : names.find? fun name => systemLib ++ [item] = systemLib ++ [name] with
  | none =>
    have different := List.find?_eq_none.mp found item member
    simp at different
  | some name =>
    have same : systemLib ++ [item] = systemLib ++ [name] := by simpa using List.find?_some found
    rw [systemLib_inj same]
    rfl

theorem linked_added {names : List Text} {path : Path} {node : Node} (free : files path = none)
    (added : linked base names files path = some node) :
    ∃ name ∈ names, path = systemLib ++ [name] ∧ node = .link (base.target name) := by
  rw [linked, free, Option.none_or] at added
  obtain ⟨name, found, rfl⟩ := Option.map_eq_some_iff.mp added
  exact ⟨name, List.mem_of_find?_eq_some found, by simpa using List.find?_some found, rfl⟩

theorem fewer_linked (base : Prefix) (names : List Text) (files : Files) : Fewer files (linked base names files) where
  kept path node found := by rw [linked, found, Option.some_or]
  links path node there free := by
    obtain ⟨name, _, _, rfl⟩ := linked_added free there
    exact ⟨_, rfl⟩

theorem linked_nil : linked base [] files = files := by
  funext path
  simp [linked]

theorem linked_append (first second : List Text) :
    linked base (first ++ second) files = linked base second (linked base first files) := by
  funext path
  rw [linked, linked, linked, List.find?_append, Option.or_assoc]
  congr 1
  cases List.find? (fun name => path = systemLib ++ [name]) first <;> simp

/-! ## The first loop -/

theorem exists_last {links : List Path} (marked : Path → Prop) (some : ∃ link ∈ links, marked link) :
    ∃ before link after, links = before ++ link :: after ∧ marked link ∧ ∀ other ∈ after, ¬marked other := by
  induction links with
  | nil => simp at some
  | cons first links hypothesis =>
    cases Classical.em (∃ link ∈ links, marked link) with
    | inl later =>
      obtain ⟨before, link, after, rfl, found⟩ := hypothesis later
      exact ⟨first :: before, link, after, rfl, found⟩
    | inr last =>
      obtain ⟨link, member, found⟩ := some
      obtain rfl | member := List.mem_cons.mp member
      · exact ⟨[], link, links, rfl, found, fun other passed marks => last ⟨other, passed, marks⟩⟩
      · exact absurd ⟨link, member, found⟩ last

theorem isGone_iff {listing : List Text} :
    isGone base limit listing files item = true ↔ item ∈ listing ∧ isStale base limit files item = true ∧
      ∀ earlier ∈ listing.takeWhile (· ≠ item), isStale base limit files earlier = true →
        systemLib ++ [earlier] ∉ (resolve files limit (systemLib ++ [item])).links := by
  simp only [isGone, decide_eq_true_eq]

theorem isGone_stale {listing : List Text} (goes : isGone base limit listing files item = true) :
    isStale base limit files item = true :=
  (isGone_iff.mp goes).2.1

theorem filter_stale {listing names : List Text} :
    ∀ name ∈ names.filter (isGone base limit listing files), isStale base limit files name = true :=
  fun _ member => isGone_stale (List.mem_filter.mp member).2

theorem takeWhile_before {before after : List Text} (fresh : item ∉ before) :
    (before ++ item :: after).takeWhile (· ≠ item) = before := by
  rw [List.takeWhile_append_of_pos]
  · simp
  · intro name member
    have different : name ≠ item := by
      intro same
      exact fresh (same ▸ member)
    simpa using different

/-- The last stale link listed before some point that a walk goes through is gone at that point. -/
theorem exists_gone {before : List Text} (after : List Text)
    (arrives : (resolve files limit (systemLib ++ [item])).result ≠ .failed)
    (stale : ∃ name ∈ before, isStale base limit files name = true ∧
      systemLib ++ [name] ∈ (resolve files limit (systemLib ++ [item])).links) :
    ∃ name ∈ before, isGone base limit (before ++ after) files name = true ∧
      systemLib ++ [name] ∈ (resolve files limit (systemLib ++ [item])).links := by
  obtain ⟨name, member, stale, passed⟩ := stale
  obtain ⟨first, last, rest, passes, ⟨other, member, stale, rfl⟩, none⟩ :=
    exists_last (fun link => ∃ name ∈ before, isStale base limit files name = true ∧ link = systemLib ++ [name])
      ⟨_, passed, name, member, stale, rfl⟩
  have leads : (resolve files limit (systemLib ++ [other])).links = (systemLib ++ [other]) :: rest := by
    obtain found | found := walk_from_link .nil le_rfl arrives passes
    · rw [found]
    · exact absurd (exists_iff.mpr found) (by simp [isStale_lost stale])
  refine ⟨other, member, ?_, passes ▸ by simp⟩
  obtain ⟨start, stop, split, notBefore⟩ := List.eq_append_cons_of_mem member
  have first : (before ++ after).takeWhile (· ≠ other) = start := by
    rw [split, List.append_assoc, List.cons_append]
    exact takeWhile_before notBefore
  rw [isGone_iff, leads, first]
  refine ⟨List.mem_append_left _ member, stale, ?_⟩
  intro name member stale passed
  obtain same | passed := List.mem_cons.mp passed
  · exact notBefore (systemLib_inj same ▸ member)
  · exact none _ passed ⟨name, split ▸ List.mem_append_left _ member, stale, rfl⟩

/-- What the loop finds at an entry is told from the tree before the loop. -/
theorem isStale_before (base : Prefix) (limit : Nat) (real : Real files systemLib) {before after : List Text}
    (distinct : (before ++ item :: after).Nodup) :
    isStale base limit
        (without (before.filter (isGone base limit (before ++ item :: after) files)) files) item =
      isGone base limit (before ++ item :: after) files item := by
  have fresh : item ∉ before := fun member => (List.nodup_append.mp distinct).2.2 _ member _ (by simp) rfl
  generalize listed : before ++ item :: after = listing at distinct ⊢
  have earlier : listing.takeWhile (· ≠ item) = before := listed ▸ takeWhile_before fresh
  have fewer : Fewer (without (before.filter (isGone base limit listing files)) files) files :=
    fewer_without real filter_stale
  have dangling : ∀ link node, files link = some node →
      without (before.filter (isGone base limit listing files)) files link = none →
      exists? files limit link = false := by
    intro link node there goes
    obtain absent | ⟨name, member, rfl⟩ := without_absent goes
    · simp [absent] at there
    · exact isStale_lost (filter_stale name member)
  rw [Bool.eq_iff_iff, isGone_iff, earlier]
  constructor
  · intro stale
    obtain ⟨link, missing, library, lost⟩ := isStale_iff.mp stale
    have absent : files link = none :=
      (without_other (base.library_ne library)).symm.trans (walk_missing_absent missing)
    have same := fewer.walk_missing missing absent
    refine ⟨listed ▸ by simp, isStale_iff.mpr ⟨link, ?_, library, ?_⟩, ?_⟩
    · rw [resolve, same]
      exact missing
    · rw [← fewer.exists_iff dangling]
      exact lost
    · intro name member stale passed
      have arrives : (resolve files limit (systemLib ++ [item])).result ≠ .failed := by
        rw [resolve, same, ← resolve, missing]
        intro failed
        cases failed
      obtain ⟨other, otherMember, goes, passed⟩ :=
        exists_gone (item :: after) arrives ⟨name, member, stale, passed⟩
      rw [listed] at goes
      rw [resolve, same] at passed
      obtain ⟨target, there⟩ := walk_links_are_links passed
      simp [without_gone (List.mem_filter.mpr ⟨otherMember, goes⟩)] at there
  · rintro ⟨_, stale, avoids⟩
    obtain ⟨link, missing, library, lost⟩ := isStale_iff.mp stale
    have same : resolve (without (before.filter (isGone base limit listing files)) files) limit
        (systemLib ++ [item]) = resolve files limit (systemLib ++ [item]) := by
      apply fewer.walk_avoids
      intro other passed
      apply Option.isSome_iff_ne_none.mpr
      intro goes
      obtain ⟨target, there⟩ := walk_links_are_links passed
      obtain absent | ⟨name, member, rfl⟩ := without_absent goes
      · simp [absent] at there
      · exact avoids name (List.mem_filter.mp member).1 (filter_stale name member) passed
    exact isStale_iff.mpr ⟨link, same ▸ missing, library, by rw [fewer.exists_iff dangling, lost]⟩

theorem checkStale_remove (real : Real files systemLib) (stale : isStale base limit files item = true) :
    checkStale base limit files item = remove files (systemLib ++ [item]) := by
  obtain ⟨target, found⟩ := isStale_link real stale
  rw [checkStale, if_pos stale, unlink_link found]

theorem checkStale_keep (kept : isStale base limit files item = false) : checkStale base limit files item = files :=
  if_neg (by simp [kept])

theorem checkStale_rest (base : Prefix) (limit : Nat) (real : Real files systemLib) (before after : List Text)
    (distinct : (before ++ after).Nodup) :
    after.foldl (checkStale base limit)
        (without (before.filter (isGone base limit (before ++ after) files)) files) =
      cleaned base limit (before ++ after) files := by
  induction after generalizing before with
  | nil => simp [cleaned]
  | cons item after hypothesis =>
    have found := isStale_before base limit real distinct
    have realBefore : Real (without (before.filter (isGone base limit (before ++ item :: after) files)) files) systemLib :=
      (fewer_without real filter_stale).real.mpr real
    have split : before ++ item :: after = (before ++ [item]) ++ after := by simp
    rw [List.foldl_cons]
    rw [split] at distinct found realBefore ⊢
    rw [← hypothesis (before ++ [item]) distinct, List.filter_append]
    cases goes : isGone base limit (before ++ [item] ++ after) files item with
    | true =>
      rw [checkStale_remove realBefore (found.trans goes), List.filter_cons_of_pos goes, List.filter_nil, without_snoc]
    | false =>
      rw [checkStale_keep (found.trans goes), List.filter_cons_of_neg (Bool.eq_false_iff.mp goes), List.filter_nil,
        List.append_nil]

/-- The first loop takes the stale links away, up to those that led through one of these. -/
theorem checkStale_loop (real : Real files systemLib) (lists : Lists files systemLib system) :
    (expand system).foldl (checkStale base limit) files = cleaned base limit system files := by
  rw [expand]
  split
  case isTrue empty =>
    have absent : files (systemLib ++ [['*']]) = none := by
      have unlisted : ['*'] ∉ system := by simp [empty]
      simpa [lists.complete, Shell.isHidden] using unlisted
    have kept : isStale base limit files ['*'] = false := by
      cases stale : isStale base limit files ['*'] with
      | false => rfl
      | true =>
        obtain ⟨target, found⟩ := isStale_link real stale
        simp [absent] at found
    rw [List.foldl_cons, checkStale_keep kept, cleaned, empty, List.filter_nil, without_nil]
    rfl
  case isFalse =>
    have start := checkStale_rest base limit real [] system lists.distinct
    simpa [without_nil] using start

/-! ## The second loop -/

theorem linked_one :
    linked base [item] files = if (files (systemLib ++ [item])).isSome then files
      else write files (systemLib ++ [item]) (.link (base.target item)) := by
  funext path
  split
  case isTrue there =>
    cases found : files path with
    | some node => rw [linked, found, Option.some_or]
    | none =>
      have other : path ≠ systemLib ++ [item] := by
        rintro rfl
        simp [found] at there
      simp [linked, found, other]
  case isFalse free =>
    cases Decidable.em (path = systemLib ++ [item]) with
    | inl same =>
      rw [same, linked_item (by simpa using free) (by simp), write, if_pos rfl]
    | inr other => cases found : files path <;> simp [linked, write, found, other]

theorem Misplaced.taken (real : Real files systemLib) {place : Path}
    (misplaced : Misplaced limit files item place) : (files (systemLib ++ [item])).isSome = true := by
  apply Option.isSome_iff_ne_none.mpr
  intro absent
  have leads := misplaced.leads
  rw [real.resolve_absent absent] at leads
  cases leads

theorem Misplaced.elsewhere (real : Real files systemLib) {place : Path}
    (misplaced : Misplaced limit files item place) (name : Text) : place ++ [item] ≠ systemLib ++ [name] := by
  intro same
  obtain ⟨rfl, _⟩ := List.append_inj' same rfl
  simpa [misplaced.free] using misplaced.taken real

theorem Misplaced.more {fewer more : Files} (grows : Fewer fewer more) {place : Path}
    (misplaced : Misplaced limit fewer item place) (same : more (place ++ [item]) = none) :
    Misplaced limit more item place where
  leads := by rw [resolve, grows.walk_found misplaced.leads, ← resolve, misplaced.leads]
  directory := by
    have directory := misplaced.directory
    rw [isDirectory, Bool.or_eq_true, decide_eq_true_eq, decide_eq_true_eq] at directory ⊢
    exact directory.imp_right (grows.kept _ _)
  free := same

theorem linkFresh_cases (base : Prefix) (limit : Nat) (real : Real files systemLib) (item : Text) :
    linkFresh base limit files item = linked base [item] files ∨
      ∃ place, Misplaced limit files item place ∧
        linkFresh base limit files item = write files (place ++ [item]) (.link (base.target item)) := by
  rw [linkFresh, symlink, linked_one, linkPlace]
  cases leads : (resolve files limit (systemLib ++ [item])).result with
  | missing path => exact .inl rfl
  | failed => exact .inl rfl
  | found place =>
    cases directory : isDirectory files place with
    | false =>
      left
      simp [directory]
    | true =>
      cases free : files (place ++ [item]) with
      | none => exact .inr ⟨place, ⟨leads, directory, free⟩, by simp [directory, free]⟩
      | some node =>
        left
        have taken : (files (systemLib ++ [item])).isSome = true := by
          apply Option.isSome_iff_ne_none.mpr
          intro absent
          rw [real.resolve_absent absent] at leads
          cases leads
        simp [directory, free, taken]

theorem fewer_linkFresh (base : Prefix) (limit : Nat) (real : Real files systemLib) (item : Text) :
    Fewer files (linkFresh base limit files item) := by
  obtain same | ⟨place, misplaced, same⟩ := linkFresh_cases base limit real item
  · rw [same]
    exact fewer_linked base [item] files
  · rw [same]
    exact fewer_write misplaced.free _

theorem fewer_linkFresh_loop (base : Prefix) (limit : Nat) (names : List Text) (files : Files) (real : Real files systemLib) :
    Fewer files (names.foldl (linkFresh base limit) files) := by
  induction names generalizing files with
  | nil => exact .refl files
  | cons item names hypothesis =>
    have grows := fewer_linkFresh base limit real item
    exact grows.trans (hypothesis _ (grows.real.mp real))

theorem linkFresh_loop (after before : List Text) (real : Real files systemLib)
    (placed : ∀ item ∈ after, ∀ place, ¬Misplaced limit (linked base (before ++ after) files) item place) :
    after.foldl (linkFresh base limit) (linked base before files) = linked base (before ++ after) files := by
  induction after generalizing before with
  | nil => rw [List.append_nil, List.foldl_nil]
  | cons item after hypothesis =>
    have split : before ++ item :: after = (before ++ [item]) ++ after := by simp
    have grows : Fewer (linked base before files) (linked base (before ++ item :: after) files) := by
      rw [linked_append]
      exact fewer_linked base _ _
    have realBefore : Real (linked base before files) systemLib := (fewer_linked base before files).real.mp real
    obtain same | ⟨place, misplaced, _⟩ := linkFresh_cases base limit realBefore item
    · rw [List.foldl_cons, same, ← linked_append, split]
      apply hypothesis (before ++ [item])
      rw [← split]
      exact fun item member => placed item (List.mem_cons_of_mem _ member)
    · have free : linked base (before ++ item :: after) files (place ++ [item]) = none := by
        rw [linked_append]
        cases added : linked base (item :: after) (linked base before files) (place ++ [item]) with
        | none => rfl
        | some node =>
          obtain ⟨name, _, inside, _⟩ := linked_added misplaced.free added
          exact absurd inside (misplaced.elsewhere realBefore name)
      exact absurd (misplaced.more grows free) (placed item (by simp) place)

theorem linkFresh_inside (base : Prefix) (limit : Nat) (after before : List Text) (real : Real files systemLib)
    (inside : ∀ path, linked base before files path = none →
      (after.foldl (linkFresh base limit) (linked base before files) path).isSome = true →
      ∃ name, path = systemLib ++ [name]) :
    after.foldl (linkFresh base limit) (linked base before files) = linked base (before ++ after) files := by
  induction after generalizing before with
  | nil => rw [List.append_nil, List.foldl_nil]
  | cons item after hypothesis =>
    have realBefore : Real (linked base before files) systemLib := (fewer_linked base before files).real.mp real
    have split : before ++ item :: after = (before ++ [item]) ++ after := by simp
    rw [List.foldl_cons] at inside ⊢
    obtain same | ⟨place, misplaced, same⟩ := linkFresh_cases base limit realBefore item
    · rw [same, ← linked_append] at inside ⊢
      rw [split]
      apply hypothesis (before ++ [item])
      intro path absent
      apply inside path
      rw [linked_append] at absent
      exact (fewer_linked base [item] _).absent absent
    · have grows := fewer_linkFresh base limit realBefore item
      have later := fewer_linkFresh_loop base limit after _ (grows.real.mp realBefore)
      have made : linkFresh base limit (linked base before files) item (place ++ [item]) =
          some (.link (base.target item)) := by rw [same, write, if_pos rfl]
      have there := inside (place ++ [item]) misplaced.free (by rw [later.kept _ _ made]; rfl)
      obtain ⟨name, same⟩ := there
      exact absurd same (misplaced.elsewhere realBefore name)

/-! ## One run -/

theorem ldimport_mounted (mounted : Mounted base files) (listing : Path → List Text) :
    ldimport base limit listing files =
      ((expand (listing base.lib)).foldl (linkFresh base limit)
        ((expand (listing systemLib)).foldl (checkStale base limit) files), true) := by
  have there : exists? files limit base.lib = true := by rw [exists?, mounted.lib.resolve_directory]
  rw [ldimport, source, if_pos there]

theorem fewer_cleaned (base : Prefix) (limit : Nat) (system : List Text) (real : Real files systemLib) :
    Fewer (cleaned base limit system files) files :=
  fewer_without real filter_stale

theorem fewer_layout (base : Prefix) (limit : Nat) (system lib : List Text) (files : Files) :
    Fewer (cleaned base limit system files) (layout base limit system lib files) :=
  fewer_linked base _ _

theorem layout_outside {path : Path} (outside : ∀ name, path ≠ systemLib ++ [name]) :
    layout base limit system lib files path = files path := by
  have same : cleaned base limit system files path = files path := without_other outside
  cases found : files path with
  | some node => rw [layout, linked_there (by simp [same, found]), same, found]
  | none =>
    cases added : layout base limit system lib files path with
    | none => rfl
    | some node =>
      obtain ⟨name, _, inside, _⟩ := linked_added (same.trans found) added
      exact absurd inside (outside name)

theorem layout_real (base : Prefix) (limit : Nat) (system lib : List Text) {directory : Path}
    (realSystem : Real files systemLib) (real : Real files directory) :
    Real (layout base limit system lib files) directory :=
  (fewer_layout base limit system lib files).real.mp ((fewer_cleaned base limit system realSystem).real.mpr real)

theorem cleaned_kept {path : Path} {node : Node} (found : files path = some node)
    (other : ¬IsImport base limit files path) (real : Real files systemLib) :
    cleaned base limit system files path = some node := by
  cases stays : cleaned base limit system files path with
  | some left => exact congrArg some (Option.some.inj (((fewer_cleaned base limit system real).kept _ _ stays).symm.trans found))
  | none =>
    obtain absent | ⟨name, member, rfl⟩ := without_absent stays
    · simp [absent] at found
    · have stale := filter_stale name member
      obtain ⟨target, there⟩ := isStale_link real stale
      obtain ⟨link, missing, library, _⟩ := isStale_iff.mp stale
      exact absurd ⟨name, target, link, rfl, there, by rw [readlink, missing], library⟩ other

theorem without_fewer (real : Real files systemLib) {few many : List Text} (subset : few ⊆ many)
    (stale : ∀ name ∈ many, isStale base limit files name = true) :
    Fewer (without many files) (without few files) where
  kept path node found := by
    have there := (fewer_without real stale).kept path node found
    rw [without] at found ⊢
    split at found
    · cases found
    case isFalse stays =>
      rw [if_neg fun ⟨name, member, same⟩ => stays ⟨name, subset member, same⟩]
      exact there
  links path node there goes := by
    have found := (fewer_without real fun name member => stale name (subset member)).kept path node there
    exact (fewer_without real stale).links path node found goes

/-- A link that is seen by the first loop and leads through no new link is not stale after it. -/
theorem cleaned_live (real : Real files systemLib) (lists : Lists files systemLib system) {link : Path}
    (visible : Shell.isHidden item = false)
    (missing : (resolve (cleaned base limit system files) limit (systemLib ++ [item])).result = .missing link)
    (library : base.isLibrary link = true) :
    exists? (cleaned base limit system files) limit (data link) = true := by
  have fewer := fewer_cleaned base limit system real
  have stays : (cleaned base limit system files (systemLib ++ [item])).isSome = true := by
    apply Option.isSome_iff_ne_none.mpr
    intro absent
    rw [(fewer.real.mpr real).resolve_absent absent] at missing
    exact base.library_ne library item (Result.missing.inj missing).symm
  have listed : item ∈ system := by
    obtain ⟨node, found⟩ := Option.isSome_iff_exists.mp stays
    exact (lists.complete item).mpr ⟨visible, by rw [fewer.kept _ _ found]; rfl⟩
  obtain ⟨before, after, rfl⟩ := List.append_of_mem listed
  generalize few : before.filter (isGone base limit (before ++ item :: after) files) = early
  have subset : early ⊆ (before ++ item :: after).filter (isGone base limit (before ++ item :: after) files) := by
    rw [← few, List.filter_append]
    exact List.subset_append_left _ _
  have stale : ∀ name ∈ (before ++ item :: after).filter (isGone base limit (before ++ item :: after) files),
      isStale base limit files name = true := filter_stale
  have between := without_fewer real subset stale
  have absent : without early files link = none := by
    rw [without_other (base.library_ne library)]
    exact (without_other (base.library_ne library)).symm.trans (walk_missing_absent missing)
  have dangling : ∀ path node, without early files path = some node →
      cleaned base limit (before ++ item :: after) files path = none →
      exists? (without early files) limit path = false := by
    intro path node found goes
    obtain absent | ⟨name, member, rfl⟩ := without_absent goes
    · have there := (fewer_without real fun name member => stale name (subset member)).kept path node found
      simp [absent] at there
    · apply Bool.eq_false_iff.mpr
      intro leads
      have there := (fewer_without real fun name member => stale name (subset member)).exists_of_exists leads
      simp [isStale_lost (stale name member)] at there
  cases lost : exists? (cleaned base limit (before ++ item :: after) files) limit (data link) with
  | true => rfl
  | false =>
    have found : isStale base limit (without early files) item = true := by
      apply isStale_iff.mpr
      refine ⟨link, ?_, library, ?_⟩
      · rw [resolve, between.walk_missing missing absent]
        exact missing
      · rw [← between.exists_iff dangling]
        exact lost
    rw [← few, isStale_before base limit real lists.distinct] at found
    rw [cleaned, without_gone (List.mem_filter.mpr ⟨listed, found⟩)] at stays
    cases stays

theorem layout_fresh {path : Path} {node : Node} (found : layout base limit system lib files path = some node)
    (free : cleaned base limit system files path = none) :
    ∃ name ∈ expand lib, path = systemLib ++ [name] :=
  let ⟨name, member, same, _⟩ := linked_added free found
  ⟨name, member, same⟩

theorem Unobstructed.live (real : Real files systemLib) (lists : Lists files systemLib system)
    (unobstructed : Unobstructed base limit system lib files) (item : Text) (link : Path)
    (missing : (resolve (layout base limit system lib files) limit (systemLib ++ [item])).result = .missing link)
    (library : base.isLibrary link = true) :
    exists? (layout base limit system lib files) limit (data link) = true := by
  have fewer := fewer_layout base limit system lib files
  cases hidden : Shell.isHidden item with
  | true => exact unobstructed.dangling item link (.inl hidden) missing library
  | false =>
    obtain avoids | ⟨other, passed, free⟩ := avoids_or_hits (cleaned base limit system files)
      (resolve (layout base limit system lib files) limit (systemLib ++ [item])).links
    · have same := fewer.walk_avoids avoids
      apply fewer.exists_of_exists
      apply cleaned_live real lists hidden _ library
      rw [resolve, same]
      exact missing
    · obtain ⟨target, there⟩ := walk_links_are_links passed
      obtain ⟨name, member, rfl⟩ := layout_fresh there free
      exact unobstructed.dangling item link (.inr ⟨name, member, free, passed⟩) missing library

/-! ## The condition is enough -/

theorem loops_layout (real : Real files systemLib) (lists : Lists files systemLib system)
    (unobstructed : Unobstructed base limit system lib files) :
    (expand lib).foldl (linkFresh base limit) ((expand system).foldl (checkStale base limit) files) =
      layout base limit system lib files := by
  have looped := linkFresh_loop (expand lib) [] ((fewer_cleaned base limit system real).real.mpr real)
    unobstructed.placed
  rw [linked_nil, List.nil_append] at looped
  rw [checkStale_loop real lists]
  exact looped

theorem layout_taken (base : Prefix) (limit : Nat) (system : List Text) (files : Files) (member : item ∈ expand lib) :
    (layout base limit system lib files (systemLib ++ [item])).isSome = true := by
  cases free : cleaned base limit system files (systemLib ++ [item]) with
  | none =>
    rw [layout, linked_item free member]
    rfl
  | some node =>
    rw [(fewer_layout base limit system lib files).kept _ _ free]
    rfl

theorem mem_expand (member : item ∈ lib) : item ∈ expand lib := by
  rw [expand, if_neg (List.ne_nil_of_mem member)]
  exact member

theorem layout_imported (real : Real files systemLib) (systemLists : Lists files systemLib system)
    (libLists : Lists files base.lib lib) (unobstructed : Unobstructed base limit system lib files) :
    Imported base limit files (layout base limit system lib files) where
  kept path node found other := (fewer_layout ..).kept path node (cleaned_kept found other real)
  live item link := unobstructed.live real systemLists item link
  linked item visible there := by
    have member := mem_expand ((libLists.complete item).mpr ⟨visible, there⟩)
    cases free : cleaned base limit system files (systemLib ++ [item]) with
    | none => exact .inl (linked_item free member)
    | some node =>
      right
      rw [(fewer_cleaned base limit system real).kept _ _ free]
      rfl
  others path absent added := by
    obtain ⟨node, found⟩ := Option.isSome_iff_exists.mp added
    obtain ⟨name, member, rfl⟩ := layout_fresh found ((fewer_cleaned base limit system real).absent absent)
    rw [expand] at member
    split at member
    case isTrue empty =>
      obtain rfl := List.mem_singleton.mp member
      obtain listed | taken := unobstructed.listed
      · exact absurd empty listed
      · simp [absent] at taken
    case isFalse => exact ⟨name, rfl, (libLists.complete name).mp member⟩

theorem layout_lists (libLists : Lists files base.lib lib) {names : List Text}
    (lists : Lists (layout base limit system lib files) base.lib names) (name : Text) :
    name ∈ expand names ↔ name ∈ expand lib := by
  have same : ∀ name, name ∈ names ↔ name ∈ lib := by
    intro name
    rw [lists.complete, libLists.complete, layout_outside (base.below_ne [name])]
  cases empty : lib with
  | nil =>
    have none : names = [] := by simpa [empty, List.eq_nil_iff_forall_not_mem] using same
    rw [none]
  | cons first rest =>
    have some : names ≠ [] := List.ne_nil_of_mem ((same first).mpr (by simp [empty]))
    rw [expand, expand, if_neg some, if_neg (List.cons_ne_nil _ _), same, empty]

theorem layout_mounted (mounted : Mounted base files) : Mounted base (layout base limit system lib files) where
  system := layout_real base limit system lib mounted.system mounted.system
  lib := layout_real base limit system lib mounted.system mounted.lib

theorem checkStale_unchanged
    (live : ∀ item link, (resolve files limit (systemLib ++ [item])).result = .missing link →
      base.isLibrary link = true → exists? files limit (data link) = true) (names : List Text) :
    names.foldl (checkStale base limit) files = files := by
  induction names with
  | nil => rfl
  | cons item names hypothesis =>
    have kept : isStale base limit files item = false := by
      apply Bool.eq_false_iff.mpr
      intro stale
      obtain ⟨link, missing, library, lost⟩ := isStale_iff.mp stale
      simp [live item link missing library] at lost
    rw [List.foldl_cons, checkStale_keep kept, hypothesis]

theorem Misplaced.made (base : Prefix) {place : Path} (misplaced : Misplaced limit files item place) :
    linkFresh base limit files item (place ++ [item]) = some (.link (base.target item)) := by
  simp [linkFresh, symlink, linkPlace, misplaced.leads, misplaced.directory, misplaced.free, write]

theorem linkFresh_unchanged (base : Prefix) (limit : Nat) (real : Real files systemLib) (names : List Text)
    (taken : ∀ item ∈ names, (files (systemLib ++ [item])).isSome = true) :
    names.foldl (linkFresh base limit) files = files ↔
      ∀ item ∈ names, ∀ place, ¬Misplaced limit files item place := by
  induction names with
  | nil => simp
  | cons item names hypothesis =>
    have later := hypothesis fun item member => taken item (List.mem_cons_of_mem _ member)
    rw [List.foldl_cons]
    obtain same | ⟨place, misplaced, _⟩ := linkFresh_cases base limit real item
    · have kept : linkFresh base limit files item = files := by
        rw [same, linked_one, if_pos (taken item (by simp))]
      have placed : ∀ place, ¬Misplaced limit files item place := by
        intro place misplaced
        have made := misplaced.made base
        simp [kept, misplaced.free] at made
      rw [kept, later, List.forall_mem_cons]
      exact (and_iff_right placed).symm
    · constructor
      · intro unchanged
        have grows := fewer_linkFresh_loop base limit names _ ((fewer_linkFresh base limit real item).real.mp real)
        have there := grows.kept _ _ (misplaced.made base)
        rw [unchanged, misplaced.free] at there
        cases there
      · intro placed
        exact absurd misplaced (placed item (by simp) place)

/-- A second run finds every name taken and no link misplaced. -/
theorem layout_unchanged (mounted : Mounted base files) (systemLists : Lists files systemLib system)
    (libLists : Lists files base.lib lib) (unobstructed : Unobstructed base limit system lib files) :
    Unchanged base limit (layout base limit system lib files) := by
  intro second _ secondLib
  have again : Mounted base (layout base limit system lib files) := layout_mounted mounted
  have listed := layout_lists libLists secondLib
  rw [ldimport_mounted again, checkStale_unchanged (unobstructed.live mounted.system systemLists)]
  apply (linkFresh_unchanged base limit again.system _ _).mpr
  · exact fun item member => unobstructed.placed item ((listed item).mp member)
  · exact fun item member => layout_taken base limit system files ((listed item).mp member)

/-! ## The condition is needed -/

theorem loops_inside (real : Real files systemLib) (lists : Lists files systemLib system)
    (others : ∀ path, files path = none →
      ((expand lib).foldl (linkFresh base limit)
        ((expand system).foldl (checkStale base limit) files) path).isSome = true →
      ∃ item, path = systemLib ++ [item]) :
    (expand lib).foldl (linkFresh base limit) ((expand system).foldl (checkStale base limit) files) =
      layout base limit system lib files := by
  rw [checkStale_loop real lists] at others ⊢
  have looped := linkFresh_inside base limit (expand lib) [] ((fewer_cleaned base limit system real).real.mpr real)
  rw [linked_nil, List.nil_append] at looped
  apply looped
  intro path absent there
  obtain absent | ⟨name, _, same⟩ := without_absent absent
  · exact others path absent there
  · exact ⟨name, same⟩

theorem layout_system (base : Prefix) (limit : Nat) (real : Real files systemLib) (systemLists : Lists files systemLib system)
    (libLists : Lists files base.lib lib) :
    ∃ names, Lists (layout base limit system lib files) systemLib names := by
  have fewer := fewer_cleaned base limit system real
  have visible : ∀ name ∈ expand lib, Shell.isHidden name = false := by
    intro name member
    rw [expand] at member
    split at member
    · obtain rfl := List.mem_singleton.mp member
      rfl
    · exact ((libLists.complete name).mp member).1
  have distinct : (expand lib).Nodup := by
    rw [expand]
    split
    · exact List.nodup_singleton _
    · exact libLists.distinct
  have stays : ∀ name, (cleaned base limit system files (systemLib ++ [name])).isSome = true →
      Shell.isHidden name = false → name ∈ system := by
    intro name there visible
    obtain ⟨node, found⟩ := Option.isSome_iff_exists.mp there
    exact (systemLists.complete name).mpr ⟨visible, by rw [fewer.kept _ _ found]; rfl⟩
  refine ⟨(expand lib).filter (fun name => (cleaned base limit system files (systemLib ++ [name])).isNone) ++
    system.filter (fun name => (cleaned base limit system files (systemLib ++ [name])).isSome), ?_, ?_⟩
  · rw [List.nodup_append]
    refine ⟨distinct.filter _, systemLists.distinct.filter _, ?_⟩
    intro name free other there same
    simp only [List.mem_filter] at free there
    rw [same, Option.isNone_iff_eq_none] at free
    simp [free.2] at there
  · intro name
    rw [List.mem_append, List.mem_filter, List.mem_filter]
    constructor
    · rintro (⟨member, _⟩ | ⟨member, there⟩)
      · exact ⟨visible name member, layout_taken base limit system files member⟩
      · obtain ⟨node, found⟩ := Option.isSome_iff_exists.mp there
        exact ⟨((systemLists.complete name).mp member).1,
          by rw [(fewer_layout base limit system lib files).kept _ _ found]; rfl⟩
    · rintro ⟨shown, there⟩
      obtain ⟨node, found⟩ := Option.isSome_iff_exists.mp there
      cases free : cleaned base limit system files (systemLib ++ [name]) with
      | none =>
        obtain ⟨other, member, same⟩ := layout_fresh found free
        exact .inl ⟨systemLib_inj same ▸ member, rfl⟩
      | some left => exact .inr ⟨stays name (by rw [free]; rfl) shown, rfl⟩

theorem Imported.unobstructed (mounted : Mounted base files) (systemLists : Lists files systemLib system)
    (libLists : Lists files base.lib lib)
    (imported : Imported base limit files (layout base limit system lib files))
    (unchanged : Unchanged base limit (layout base limit system lib files)) :
    Unobstructed base limit system lib files where
  listed := by
    cases empty : lib with
    | cons first rest => exact .inl (List.cons_ne_nil _ _)
    | nil =>
      right
      apply Option.isSome_iff_ne_none.mpr
      intro absent
      have taken : (layout base limit system lib files (systemLib ++ [['*']])).isSome = true :=
        layout_taken base limit system files (by simp [empty, expand])
      obtain ⟨name, _, shown, there⟩ := imported.others _ absent taken
      have member := (libLists.complete name).mpr ⟨shown, there⟩
      simp [empty] at member
  placed := by
    have again : Mounted base (layout base limit system lib files) := layout_mounted mounted
    obtain ⟨names, lists⟩ := layout_system base limit mounted.system systemLists libLists
    have second := unchanged (fun directory => if directory = systemLib then names else lib)
    have libAgain : Lists (layout base limit system lib files) base.lib lib :=
      ⟨libLists.distinct, fun name => by rw [libLists.complete, layout_outside (base.below_ne [name])]⟩
    rw [ldimport_mounted again] at second
    simp only [if_true, if_neg base.lib_ne] at second
    rw [checkStale_unchanged imported.live] at second
    apply (linkFresh_unchanged base limit again.system (expand lib) _).mp (second lists libAgain)
    exact fun item member => layout_taken base limit system files member
  dangling item link _ := imported.live item link

theorem unobstructed_of_imported {listing : Path → List Text} (mounted : Mounted base files)
    (systemLists : Lists files systemLib (listing systemLib)) (libLists : Lists files base.lib (listing base.lib))
    (imported : Imported base limit files (ldimport base limit listing files).1)
    (unchanged : Unchanged base limit (ldimport base limit listing files).1) :
    Unobstructed base limit (listing systemLib) (listing base.lib) files := by
  rw [ldimport_mounted mounted] at imported unchanged
  have same := loops_inside mounted.system systemLists fun path absent there =>
    let ⟨item, same, _⟩ := imported.others path absent there
    ⟨item, same⟩
  rw [same] at imported unchanged
  exact imported.unobstructed mounted systemLists libLists unchanged

/-- One run does what it is meant to do and a second one changes nothing, exactly where
nothing is in the way. -/
theorem ldimport_idempotent_iff (base : Prefix) (limit : Nat) (files : Files) (listing : Path → List Text)
    (mounted : Mounted base files) (systemLists : Lists files systemLib (listing systemLib))
    (libLists : Lists files base.lib (listing base.lib)) :
    (Imported base limit files (ldimport base limit listing files).1 ∧
        Unchanged base limit (ldimport base limit listing files).1) ↔
      Unobstructed base limit (listing systemLib) (listing base.lib) files := by
  constructor
  · rintro ⟨imported, unchanged⟩
    exact unobstructed_of_imported mounted systemLists libLists imported unchanged
  · intro unobstructed
    rw [ldimport_mounted mounted, loops_layout mounted.system systemLists unobstructed]
    exact ⟨layout_imported mounted.system systemLists libLists unobstructed,
      layout_unchanged mounted systemLists libLists unobstructed⟩

/-! ## A library and a directory of libraries -/

def botbrew : Prefix := ⟨["botbrew".toList], by decide⟩

def deviceWith (name : Text) (node : Node) : List (Path × Node) :=
  [(["system".toList], .directory), (systemLib, .directory), (["botbrew".toList], .directory),
    (botbrew.lib, .directory), (botbrew.lib ++ [name], node)]

def libz : List (Path × Node) := deviceWith "libz.so".toList (.file [])

def python : List (Path × Node) := deviceWith "python2.7".toList .directory

theorem deviceWith_mounted (name : Text) (node : Node) : Mounted botbrew (ofEntries (deviceWith name node)) where
  system := (Real.nil.snoc rfl).snoc rfl
  lib := (Real.nil.snoc rfl).snoc rfl

theorem libz_leads :
    (resolve (layout botbrew 40 (namesIn libz systemLib) (namesIn libz botbrew.lib) (ofEntries libz)) 40
      (systemLib ++ ["libz.so".toList])).result = .found (botbrew.lib ++ ["libz.so".toList]) := by
  decide +kernel

theorem libz_unobstructed :
    Unobstructed botbrew 40 (namesIn libz systemLib) (namesIn libz botbrew.lib) (ofEntries libz) where
  listed := .inl (by decide +kernel)
  placed item member place misplaced := by
    obtain rfl := List.mem_singleton.mp (show item ∈ ["libz.so".toList] from member)
    have place : place = botbrew.lib ++ ["libz.so".toList] := Result.found.inj (misplaced.leads.symm.trans libz_leads)
    have directory := misplaced.directory
    rw [place] at directory
    exact absurd directory (by decide +kernel)
  dangling item link _ missing library := by
    have real : Real (layout botbrew 40 (namesIn libz systemLib) (namesIn libz botbrew.lib) (ofEntries libz)) systemLib :=
      (layout_mounted (deviceWith_mounted _ _)).system
    cases found : layout botbrew 40 (namesIn libz systemLib) (namesIn libz botbrew.lib) (ofEntries libz)
        (systemLib ++ [item]) with
    | none =>
      rw [real.resolve_absent found] at missing
      exact absurd (Result.missing.inj missing).symm (botbrew.library_ne library item)
    | some node =>
      have absent : cleaned botbrew 40 (namesIn libz systemLib) (ofEntries libz) (systemLib ++ [item]) = none := by
        apply (fewer_cleaned botbrew 40 _ (deviceWith_mounted _ _).system).absent
        apply Option.isNone_iff_eq_none.mp
        rw [← Option.not_isSome, Bool.not_eq_true', Bool.eq_false_iff, ne_eq, isSome_child]
        exact List.not_mem_nil
      obtain ⟨name, member, same⟩ := layout_fresh found absent
      obtain rfl := List.mem_singleton.mp (show name ∈ ["libz.so".toList] from member)
      obtain rfl := systemLib_inj same
      rw [libz_leads] at missing
      cases missing

theorem ldimport_idempotent_libz :
    Imported botbrew 40 (ofEntries libz) (ldimport botbrew 40 (namesIn libz) (ofEntries libz)).1 ∧
      Unchanged botbrew 40 (ldimport botbrew 40 (namesIn libz) (ofEntries libz)).1 :=
  (ldimport_idempotent_iff botbrew 40 (ofEntries libz) (namesIn libz) (deviceWith_mounted _ _)
    (lists_namesIn (by decide +kernel) _) (lists_namesIn (by decide +kernel) _)).mpr libz_unobstructed

/-- The second run makes a link in the directory that the first one made a link to. -/
theorem ldimport_twice :
    Mounted botbrew (ofEntries python) ∧ Lists (ofEntries python) systemLib (namesIn python systemLib) ∧
      Lists (ofEntries python) botbrew.lib (namesIn python botbrew.lib) ∧
      ¬(Imported botbrew 40 (ofEntries python) (ldimport botbrew 40 (namesIn python) (ofEntries python)).1 ∧
        Unchanged botbrew 40 (ldimport botbrew 40 (namesIn python) (ofEntries python)).1) := by
  have mounted : Mounted botbrew (ofEntries python) := deviceWith_mounted _ _
  have distinct : (python.map Prod.fst).Nodup := by decide +kernel
  refine ⟨mounted, lists_namesIn distinct _, lists_namesIn distinct _, ?_⟩
  rintro ⟨imported, unchanged⟩
  have unobstructed :=
    unobstructed_of_imported mounted (lists_namesIn distinct _) (lists_namesIn distinct _) imported unchanged
  apply unobstructed.placed "python2.7".toList (by decide +kernel) (botbrew.lib ++ ["python2.7".toList])
  exact ⟨by decide +kernel, by decide +kernel, by decide +kernel⟩

end BotBrew.Ldimport
