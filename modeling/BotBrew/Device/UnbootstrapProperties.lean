import BotBrew.Device.Unbootstrap
import BotBrew.Device.LdimportProperties

/-! When `unbootstrap.sh` leaves `/system/lib` as it was before the first `ldimport`. -/

set_option autoImplicit false

namespace BotBrew.Unbootstrap

open FileSystem Ldimport

def bare (base : Prefix) (files : Files) : Files := fun path => if InPrefix base path then none else files path

/-- An entry for which `readlink` prints a path, and does not go through the prefix -/
def Settled (base : Prefix) (limit : Nat) (files : Files) (item : Text) : Prop :=
  ∃ path, readlink (bare base files) limit (systemLib ++ [item]) = some path ∧ ¬InPrefix base path

/-- A name that no entry leads to while it is missing -/
def Unreserved (base : Prefix) (limit : Nat) (initial : Files) (name : Text) : Prop :=
  ∀ item, Shell.isHidden item = false →
    (resolve (bare base initial) limit (systemLib ++ [item])).result = .missing (systemLib ++ [name]) →
    initial (systemLib ++ [item]) = none

/-- Loops of `ln` in which each name is unreserved, and a directory that it stands for, if it
is without that name, is one of the prefix. -/
def Careful (base : Prefix) (limit : Nat) (initial : Files) : List Text → Files → Prop
  | [], _ => True
  | item :: items, files =>
    Unreserved base limit initial item ∧ (∀ place, Misplaced limit files item place → InPrefix base place) ∧
      Careful base limit initial items (linkFresh base limit files item)

def Action.Careful (base : Prefix) (limit : Nat) (initial files : Files) : Action → Prop
  | .change _ => True
  | .ldimport listing => ∀ directory, source base limit files = some directory →
    Unbootstrap.Careful base limit initial (expand (listing directory))
      ((expand (listing systemLib)).foldl (checkStale base limit) files)

def CarefulSession (base : Prefix) (limit : Nat) (initial : Files) : List Action → Files → Prop
  | [], _ => True
  | action :: actions, files =>
    action.Careful base limit initial files ∧ CarefulSession base limit initial actions (action.run base limit files)

def Unmounted (base : Prefix) (files : Files) : Prop :=
  ∃ directory name rest, base.lib = directory ++ name :: rest ∧ Real files directory ∧
    files (directory ++ [name]) = none

def others (base : Prefix) (initial files : Files) : Files :=
  fun path => if InPrefix base path then files path else initial path

/-- A library that leads to one of the prefix, not through a link of `ldimport` -/
def Recognized (base : Prefix) (limit : Nat) (initial files : Files) (item : Text) : Prop :=
  ∃ link, readlink (others base initial files) (limit - 1) (base.lib ++ [item]) = some link ∧
    base.isLibrary link = true

/-- The links in `/system/lib` that `ldimport` made are all that has changed. -/
def Kept (base : Prefix) (limit : Nat) (initial files : Files) : Prop :=
  ∀ path, ¬InPrefix base path → files path = initial path ∨
    initial path = none ∧ ∃ item, path = systemLib ++ [item] ∧ Shell.isHidden item = false ∧
      Unreserved base limit initial item ∧ files path = some (.link (base.target item))

variable {base : Prefix} {limit : Nat} {initial files : Files} {item : Text}

/-! ## The prefix -/

theorem system_outside (outside : ¬base.path <+: systemLib) {path : Path} (leads : path <+: systemLib) :
    ¬InPrefix base path := by
  rintro (inside | inside)
  · exact outside (inside.trans leads)
  · obtain ⟨rest, same⟩ := inside.trans leads
    exact absurd (List.cons.inj same).1 (by decide)

theorem item_outside (outside : ¬base.path <+: systemLib) (item : Text) : ¬InPrefix base (systemLib ++ [item]) := by
  rintro (inside | inside)
  · obtain same | leads := List.prefix_concat_iff.mp inside
    · exact base.apart ⟨item :: ["lib".toList], by rw [same]; simp⟩
    · exact outside leads
  · obtain ⟨rest, same⟩ := inside
    exact absurd (List.cons.inj same).1 (by decide)

theorem library_inPrefix {link : Path} (library : base.isLibrary link = true) : InPrefix base link := by
  obtain ⟨leads, _⟩ : base.lib <+: link ∧ link ≠ base.lib := by simpa [Prefix.isLibrary] using library
  exact .inl ((List.prefix_append _ _).trans leads)

theorem InPrefix.append {path : Path} (inside : InPrefix base path) (rest : Path) : InPrefix base (path ++ rest) :=
  inside.imp (fun leads => leads.trans (List.prefix_append _ _)) (fun leads => leads.trans (List.prefix_append _ _))

theorem bare_outside {path : Path} (outside : ¬InPrefix base path) : bare base files path = files path :=
  if_neg outside

theorem bare_some {path : Path} {node : Node} (found : bare base files path = some node) :
    ¬InPrefix base path ∧ files path = some node := by
  rw [bare] at found
  split at found
  · cases found
  case isFalse outside => exact ⟨outside, found⟩

theorem bare_real (outside : ¬base.path <+: systemLib) (real : Real files systemLib) :
    Real (bare base files) systemLib :=
  fun path leads nonempty => (bare_outside (system_outside outside leads)).trans (real path leads nonempty)

theorem readlink_some {path link : Path} :
    readlink files limit path = some link ↔
      (resolve files limit path).result = .found link ∨ (resolve files limit path).result = .missing link := by
  rw [readlink]
  cases (resolve files limit path).result <;> simp

/-- Entries that are added do not change what `readlink` prints, unless it was the path of one. -/
theorem readlink_grows {small large : Files} {path link : Path}
    (kept : ∀ path node, small path = some node → large path = some node)
    (leads : readlink small limit path = some link)
    (absent : (resolve small limit path).result = .missing link → large link = none) :
    readlink large limit path = some link := by
  have same : resolve large limit path = resolve small limit path := by
    apply walk_grows kept
    · obtain found | missing := readlink_some.mp leads
      · exact fun failed => nomatch found.symm.trans failed
      · exact fun failed => nomatch missing.symm.trans failed
    · intro other missing
      obtain found | ends := readlink_some.mp leads
      · exact nomatch found.symm.trans missing
      · obtain rfl := Result.missing.inj (ends.symm.trans missing)
        exact absent missing
  rw [readlink, same, ← readlink, leads]

/-! ## Runs of `ldimport` -/

theorem Kept.refl (base : Prefix) (limit : Nat) (initial : Files) : Kept base limit initial initial :=
  fun _ _ => .inl rfl

theorem Kept.change (kept : Kept base limit initial files) {after : Files} (change : Change base files after) :
    Kept base limit initial after := by
  intro path outside
  rw [change path outside]
  exact kept path outside

theorem Kept.bare (kept : Kept base limit initial files) {path : Path} {node : Node}
    (found : bare base initial path = some node) : files path = some node := by
  obtain ⟨outside, there⟩ := bare_some found
  obtain same | ⟨absent, _⟩ := kept path outside
  · exact same.trans there
  · simp [absent] at there

theorem Kept.real (kept : Kept base limit initial files) (outside : ¬base.path <+: systemLib)
    (real : Real initial systemLib) : Real files systemLib :=
  fun path leads nonempty => kept.bare (bare_real outside real path leads nonempty)

theorem Kept.settled (kept : Kept base limit initial files) (visible : Shell.isHidden item = false)
    (there : (initial (systemLib ++ [item])).isSome = true) (settled : Settled base limit initial item) :
    ∃ path, readlink files limit (systemLib ++ [item]) = some path ∧ ¬InPrefix base path := by
  obtain ⟨path, leads, outside⟩ := settled
  refine ⟨path, ?_, outside⟩
  apply readlink_grows (fun _ _ => kept.bare) leads
  intro missing
  have absent : initial path = none := (bare_outside outside).symm.trans (walk_missing_absent missing)
  obtain same | ⟨_, name, rfl, _, unreserved, _⟩ := kept path outside
  · exact same.trans absent
  · rw [unreserved item visible missing] at there
    cases there

theorem Kept.stale (kept : Kept base limit initial files) (visible : Shell.isHidden item = false)
    (settled : (initial (systemLib ++ [item])).isSome = true → Settled base limit initial item)
    (stale : isStale base limit files item = true) : initial (systemLib ++ [item]) = none := by
  cases there : initial (systemLib ++ [item]) with
  | none => rfl
  | some node =>
    have isThere : (initial (systemLib ++ [item])).isSome = true := by rw [there]; rfl
    obtain ⟨path, leads, outside⟩ := kept.settled visible isThere (settled isThere)
    obtain ⟨link, missing, library, _⟩ := isStale_iff.mp stale
    have same : link = path := Option.some.inj ((readlink_some.mpr (.inr missing)).symm.trans leads)
    exact absurd (library_inPrefix library) (same ▸ outside)

theorem Kept.remove (kept : Kept base limit initial files) (absent : initial (systemLib ++ [item]) = none) :
    Kept base limit initial (remove files (systemLib ++ [item])) := by
  intro path outside
  rw [FileSystem.remove]
  split
  case isTrue same => exact .inl (same ▸ absent).symm
  case isFalse => exact kept path outside

section

variable (outside : ¬base.path <+: systemLib) (real : Real initial systemLib)
  (settled : ∀ item, Shell.isHidden item = false → (initial (systemLib ++ [item])).isSome = true →
    Settled base limit initial item)

include outside real settled

theorem Kept.checkStale (kept : Kept base limit initial files) (visible : Shell.isHidden item = false) :
    Kept base limit initial (checkStale base limit files item) := by
  cases stale : isStale base limit files item with
  | false => rwa [checkStale_keep stale]
  | true =>
    rw [checkStale_remove (kept.real outside real) stale]
    exact kept.remove (kept.stale visible (settled item visible) stale)

theorem Kept.checkStale_loop (names : List Text) (kept : Kept base limit initial files)
    (visible : ∀ name ∈ names, Shell.isHidden name = false) :
    Kept base limit initial (names.foldl (Ldimport.checkStale base limit) files) := by
  induction names generalizing files with
  | nil => exact kept
  | cons item names hypothesis =>
    apply hypothesis (kept.checkStale outside real settled (visible item (by simp)))
    exact fun name member => visible name (List.mem_cons_of_mem _ member)

omit settled in
theorem Kept.linkFresh (kept : Kept base limit initial files) (visible : Shell.isHidden item = false)
    (unreserved : Unreserved base limit initial item)
    (careful : ∀ place, Misplaced limit files item place → InPrefix base place) :
    Kept base limit initial (linkFresh base limit files item) := by
  intro path outsidePath
  obtain same | ⟨place, misplaced, same⟩ := linkFresh_cases base limit (kept.real outside real) item
  · rw [same]
    cases found : files path with
    | some node =>
      rw [linked_there (by rw [found]; rfl)]
      exact kept path outsidePath
    | none =>
      have absent : initial path = none := by
        obtain same | ⟨absent, _⟩ := kept path outsidePath
        · exact same.symm.trans found
        · exact absent
      cases added : linked base [item] files path with
      | none => exact .inl absent.symm
      | some node =>
        obtain ⟨name, member, rfl, rfl⟩ := linked_added found added
        obtain rfl := List.mem_singleton.mp member
        exact .inr ⟨absent, name, rfl, visible, unreserved, rfl⟩
  · have other : path ≠ place ++ [item] := by
      rintro rfl
      exact outsidePath ((careful place misplaced).append _)
    rw [same, write, if_neg other]
    exact kept path outsidePath

omit settled in
theorem Kept.linkFresh_loop (names : List Text) (kept : Kept base limit initial files)
    (visible : ∀ name ∈ names, Shell.isHidden name = false) (careful : Careful base limit initial names files) :
    Kept base limit initial (names.foldl (Ldimport.linkFresh base limit) files) := by
  induction names generalizing files with
  | nil => exact kept
  | cons item names hypothesis =>
    obtain ⟨unreserved, placed, later⟩ := careful
    apply hypothesis (kept.linkFresh outside real (visible item (by simp)) unreserved placed) _ later
    exact fun name member => visible name (List.mem_cons_of_mem _ member)

omit outside real settled in
theorem expand_visible {names : List Text} (visible : ∀ name ∈ names, Shell.isHidden name = false) :
    ∀ name ∈ expand names, Shell.isHidden name = false := by
  intro name member
  rw [expand] at member
  split at member
  · obtain rfl := List.mem_singleton.mp member
    rfl
  · exact visible name member

theorem Kept.run {action : Action} (kept : Kept base limit initial files) (allowed : action.Allowed base files)
    (careful : action.Careful base limit initial files) : Kept base limit initial (action.run base limit files) := by
  cases action with
  | change after => exact kept.change allowed
  | ldimport listing =>
    rw [Action.run, ldimport]
    cases found : source base limit files with
    | none => exact kept
    | some directory =>
      have cleaned := kept.checkStale_loop outside real settled _ (expand_visible (allowed systemLib))
      exact cleaned.linkFresh_loop outside real _ (expand_visible (allowed directory)) (careful directory found)

theorem Kept.session (actions : List Action) (kept : Kept base limit initial files)
    (allowed : Allowed base limit actions files) (careful : CarefulSession base limit initial actions files) :
    Kept base limit initial (session base limit actions files) := by
  induction actions generalizing files with
  | nil => exact kept
  | cons action actions hypothesis =>
    exact hypothesis (kept.run outside real settled allowed.1 careful.1) allowed.2 careful.2

end

/-! ## The removal of links -/

/-- Some of the links of `ldimport` are gone, and nothing else. -/
structure Unlinked (base : Prefix) (limit : Nat) (initial before files : Files) : Prop where
  kept : Kept base limit initial files
  inside : ∀ path, InPrefix base path → files path = before path
  fewer : Fewer files before

variable {before : Files}

theorem Kept.own (kept : Kept base limit initial files) (outside : ¬base.path <+: systemLib)
    (absent : initial (systemLib ++ [item]) = none) (there : (files (systemLib ++ [item])).isSome = true) :
    files (systemLib ++ [item]) = some (.link (base.target item)) := by
  obtain same | ⟨_, name, same, _, _, found⟩ := kept _ (item_outside outside item)
  · simp [same, absent] at there
  · obtain rfl := systemLib_inj same
    exact found

theorem Unmounted.failed (unmounted : Unmounted base files) (limit : Nat) (item : Text) :
    (resolve files limit (base.lib ++ [item])).result = .failed := by
  obtain ⟨directory, name, rest, same, real, absent⟩ := unmounted
  have root : Real files ([] ++ directory) := real
  have components : (base.lib ++ [item]).map Part.name =
      directory.map .name ++ .name name :: (rest ++ [item]).map .name := by simp [same]
  rw [resolve, components, root.walk, List.nil_append, walk_none absent, if_neg (by simp)]

theorem Unlinked.unmounted (unlinked : Unlinked base limit initial before files) (unmounted : Unmounted base before) : Unmounted base files := by
  obtain ⟨directory, name, rest, same, real, absent⟩ := unmounted
  exact ⟨directory, name, rest, same, unlinked.fewer.real.mpr real, unlinked.fewer.absent absent⟩

theorem readlink_own (found : files (systemLib ++ [item]) = some (.link (base.target item)))
    (real : Real files systemLib) :
    readlink files limit (systemLib ++ [item]) =
      if limit = 0 then none else readlink files (limit - 1) (base.lib ++ [item]) := by
  rw [readlink, real.resolve]
  cases limit with
  | zero => rw [walk_stop found]; rfl
  | succ limit =>
    rw [walk_link found, List.append_nil]
    rfl

theorem others_kept (kept : Kept base limit initial files) {path : Path} {node : Node}
    (found : others base initial files path = some node) : files path = some node := by
  rw [others] at found
  split at found
  case isTrue => exact found
  case isFalse outside =>
    obtain same | ⟨absent, _⟩ := kept path outside
    · exact same.trans found
    · simp [absent] at found

theorem Unlinked.isOwn (unlinked : Unlinked base limit initial before files)
    (outside : ¬base.path <+: systemLib) (real : Real initial systemLib)
    (found : files (systemLib ++ [item]) = some (.link (base.target item)))
    (recognized : Unmounted base before ∨ Recognized base limit initial before item) :
    isOwn base limit files item = true := by
  rw [Unbootstrap.isOwn, readlink_own found (unlinked.kept.real outside real)]
  cases Decidable.em (limit = 0) with
  | inl none => rw [if_pos none]
  | inr some =>
    rw [if_neg some]
    obtain unmounted | ⟨link, leads, library⟩ := recognized
    · rw [readlink, (unlinked.unmounted unmounted).failed]
    · have same : others base initial before = others base initial files := by
        funext path
        rw [others, others]
        split
        case isTrue inside => exact (unlinked.inside path inside).symm
        case isFalse => rfl
      rw [same] at leads
      have inside := library_inPrefix library
      rw [readlink_grows (fun _ _ => others_kept unlinked.kept) leads]
      · exact library
      · intro missing
        have absent := walk_missing_absent missing
        rwa [others, if_pos inside] at absent

theorem Unlinked.removed (unlinked : Unlinked base limit initial before files)
    (outside : ¬base.path <+: systemLib) (absent : initial (systemLib ++ [item]) = none) {target : Target}
    (found : files (systemLib ++ [item]) = some (.link target)) :
    Unlinked base limit initial before (remove files (systemLib ++ [item])) where
  kept := unlinked.kept.remove absent
  inside path inside := by
    have other : path ≠ systemLib ++ [item] := by
      rintro rfl
      exact item_outside outside item inside
    rw [remove, if_neg other]
    exact unlinked.inside path inside
  fewer := (fewer_remove found).trans unlinked.fewer

section

variable (outside : ¬base.path <+: systemLib) (real : Real initial systemLib)
  (settled : ∀ item, Shell.isHidden item = false → (initial (systemLib ++ [item])).isSome = true →
    Settled base limit initial item)
  (recognized : ∀ item, initial (systemLib ++ [item]) = none → (before (systemLib ++ [item])).isSome = true →
    Unmounted base before ∨ Recognized base limit initial before item)

include outside real settled recognized

theorem Unlinked.removeLink (unlinked : Unlinked base limit initial before files)
    (visible : Shell.isHidden item = false) :
    Unlinked base limit initial before (removeLink base limit files item) ∧
      Fewer (removeLink base limit files item) files ∧
      (initial (systemLib ++ [item]) = none → removeLink base limit files item (systemLib ++ [item]) = none) := by
  have realFiles := unlinked.kept.real outside real
  cases there : initial (systemLib ++ [item]) with
  | some node =>
    have isThere : (initial (systemLib ++ [item])).isSome = true := by rw [there]; rfl
    obtain ⟨path, leads, outsidePath⟩ := unlinked.kept.settled visible isThere (settled item visible isThere)
    have other : Unbootstrap.isOwn base limit files item = false := by
      rw [Unbootstrap.isOwn, leads]
      exact Bool.eq_false_iff.mpr fun library => outsidePath (library_inPrefix library)
    rw [Unbootstrap.removeLink, if_neg (by simp [other])]
    exact ⟨unlinked, .refl files, nofun⟩
  | none =>
    cases own : files (systemLib ++ [item]) with
    | none =>
      have other : Unbootstrap.isOwn base limit files item = false := by
        rw [Unbootstrap.isOwn, readlink, realFiles.resolve_absent own]
        exact Bool.eq_false_iff.mpr fun library => base.library_ne library item rfl
      rw [Unbootstrap.removeLink, if_neg (by simp [other])]
      exact ⟨unlinked, .refl files, fun _ => own⟩
    | some node =>
      have found := unlinked.kept.own outside there (by rw [own]; rfl)
      have isOwn := unlinked.isOwn outside real found
        (recognized item there (by rw [unlinked.fewer.kept _ _ found]; rfl))
      rw [Unbootstrap.removeLink, if_pos isOwn, unlink_link found]
      exact ⟨unlinked.removed outside there found, fewer_remove found, fun _ => if_pos rfl⟩

theorem Unlinked.removeLinks (names : List Text) (unlinked : Unlinked base limit initial before files)
    (visible : ∀ name ∈ names, Shell.isHidden name = false) :
    Unlinked base limit initial before (names.foldl (Unbootstrap.removeLink base limit) files) ∧
      Fewer (names.foldl (Unbootstrap.removeLink base limit) files) files ∧
      ∀ item ∈ names, initial (systemLib ++ [item]) = none →
        names.foldl (Unbootstrap.removeLink base limit) files (systemLib ++ [item]) = none := by
  induction names generalizing files with
  | nil => exact ⟨unlinked, .refl files, nofun⟩
  | cons name names hypothesis =>
    obtain ⟨next, fewer, gone⟩ := unlinked.removeLink outside real settled recognized (visible name (by simp))
    obtain ⟨last, fewest, others⟩ := hypothesis next fun item member => visible item (List.mem_cons_of_mem _ member)
    refine ⟨last, fewest.trans fewer, ?_⟩
    intro item member absent
    obtain rfl | member := List.mem_cons.mp member
    · exact fewest.absent (gone absent)
    · exact others item member absent

end

/-- After any careful runs of `ldimport`, whatever the prefix becomes, `unbootstrap.sh` leaves
everything outside the prefix as it was. -/
theorem unbootstrap_restores (base : Prefix) (limit : Nat) (initial : Files) (actions : List Action)
    (unmounted after : Files) (listing : Path → List Text) (outside : ¬base.path <+: systemLib)
    (real : Real initial systemLib)
    (settled : ∀ item, Shell.isHidden item = false → (initial (systemLib ++ [item])).isSome = true →
      Settled base limit initial item)
    (allowed : Allowed base limit actions initial) (careful : CarefulSession base limit initial actions initial)
    (fini : Change base (session base limit actions initial) unmounted)
    (recognized : ∀ item, initial (systemLib ++ [item]) = none →
      (unmounted (systemLib ++ [item])).isSome = true →
      Unmounted base unmounted ∨ Recognized base limit initial unmounted item)
    (lists : Lists unmounted systemLib (listing systemLib))
    (data : Change base (removeLinks base limit listing unmounted) after) (path : Path)
    (outsidePath : ¬InPrefix base path) : after path = initial path := by
  have kept := ((Kept.refl base limit initial).session outside real settled actions allowed careful).change fini
  have start : Unlinked base limit initial unmounted unmounted := ⟨kept, fun _ _ => rfl, .refl unmounted⟩
  have visible := expand_visible fun name member => ((lists.complete name).mp member).1
  obtain ⟨last, fewer, gone⟩ :=
    start.removeLinks outside real settled recognized (expand (listing systemLib)) visible
  rw [data path outsidePath]
  obtain same | ⟨absent, item, rfl, shown, _, found⟩ := last.kept path outsidePath
  · exact same
  · have member := (lists.complete item).mpr ⟨shown, by rw [last.fewer.kept _ _ found]; rfl⟩
    rw [gone item (mem_expand member) absent] at found
    cases found

/-! ## A device with one library -/

def systemWith (name : Text) (node : Node) : List (Path × Node) :=
  [(["system".toList], .directory), (systemLib, .directory), (systemLib ++ [name], node)]

def libc : List (Path × Node) := systemWith "libc.so".toList (.file [])

def vendor : List (Path × Node) :=
  systemWith "libfoo.so".toList (.link ⟨true, [.name "vendor".toList, .name "libfoo.so".toList]⟩)

def libzMount : List (Path × Node) :=
  [(botbrew.path, .directory), (botbrew.lib, .directory), (botbrew.lib ++ ["libz.so".toList], .file [])]

theorem change_append {entries extra : List (Path × Node)} (inside : ∀ entry ∈ extra, InPrefix base entry.1) :
    Change base (ofEntries entries) (ofEntries (entries ++ extra)) := by
  intro path outside
  have none : extra.find? (fun entry => entry.1 = path) = none := by
    apply List.find?_eq_none.mpr
    intro entry member same
    exact outside (of_decide_eq_true same ▸ inside entry member)
  rw [ofEntries, ofEntries, List.find?_append, none, Option.or_none]

theorem change_linked {names : List Text} {after : Files} (change : Change base files after) :
    Change base (linked base names after) (linked base names files) := by
  intro path outside
  rw [linked, linked, change path outside]

theorem lists_linked {names : List Text} (lists : Lists files systemLib names)
    (visible : Shell.isHidden item = false) (free : files (systemLib ++ [item]) = none) :
    Lists (linked base [item] files) systemLib (item :: names) where
  distinct := by
    apply List.nodup_cons.mpr
    constructor
    · intro member
      have there := ((lists.complete item).mp member).2
      simp [free] at there
    · exact lists.distinct
  complete name := by
    rw [List.mem_cons, lists.complete]
    cases found : files (systemLib ++ [name]) with
    | some node =>
      have other : name ≠ item := by
        rintro rfl
        simp [free] at found
      rw [linked_there (by rw [found]; rfl), found]
      simp [other]
    | none =>
      constructor
      · rintro (rfl | ⟨_, there⟩)
        · exact ⟨visible, by rw [linked_item found (by simp)]; rfl⟩
        · cases there
      · rintro ⟨_, there⟩
        obtain ⟨node, added⟩ := Option.isSome_iff_exists.mp there
        obtain ⟨other, member, same, _⟩ := linked_added found added
        exact .inl ((systemLib_inj same).trans (List.mem_singleton.mp member))

def libzLinked : Files := linked botbrew ["libz.so".toList] (ofEntries (libc ++ libzMount))

def libzActions : List Action :=
  [.change (ofEntries (libc ++ libzMount)), .ldimport (namesIn (libc ++ libzMount))]

theorem libz_real : Real (ofEntries (libc ++ libzMount)) systemLib := (Real.nil.snoc rfl).snoc rfl

theorem libz_cleaned :
    (expand (namesIn (libc ++ libzMount) systemLib)).foldl (checkStale botbrew 40) (ofEntries (libc ++ libzMount)) =
      ofEntries (libc ++ libzMount) := by
  have names : expand (namesIn (libc ++ libzMount) systemLib) = ["libc.so".toList] := by decide +kernel
  have kept : isStale botbrew 40 (ofEntries (libc ++ libzMount)) "libc.so".toList = false := by decide +kernel
  rw [names, List.foldl_cons, checkStale_keep kept, List.foldl_nil]

theorem libz_free :
    (resolve (ofEntries (libc ++ libzMount)) 40 (systemLib ++ ["libz.so".toList])).result =
      .missing (systemLib ++ ["libz.so".toList]) := by
  decide +kernel

theorem libz_placed (place : Path) : ¬Misplaced 40 (ofEntries (libc ++ libzMount)) "libz.so".toList place := by
  intro misplaced
  have leads := misplaced.leads
  rw [libz_free] at leads
  cases leads

theorem libz_session : session botbrew 40 libzActions (ofEntries libc) = libzLinked := by
  have mounted : Mounted botbrew (ofEntries (libc ++ libzMount)) := ⟨libz_real, (Real.nil.snoc rfl).snoc rfl⟩
  have names : expand (namesIn (libc ++ libzMount) botbrew.lib) = ["libz.so".toList] := by decide +kernel
  change (ldimport botbrew 40 (namesIn (libc ++ libzMount)) (ofEntries (libc ++ libzMount))).1 = libzLinked
  rw [ldimport_mounted mounted, libz_cleaned, names, List.foldl_cons, List.foldl_nil]
  obtain linked | ⟨place, misplaced, _⟩ := linkFresh_cases botbrew 40 libz_real "libz.so".toList
  · exact linked
  · exact absurd misplaced (libz_placed place)

theorem libc_only {item : Text} (there : (ofEntries libc (systemLib ++ [item])).isSome = true) :
    item = "libc.so".toList :=
  List.mem_singleton.mp (show item ∈ ["libc.so".toList] from isSome_child.mp there)

theorem libz_unreserved : Unreserved botbrew 40 (ofEntries libc) "libz.so".toList := by
  intro item _ missing
  cases there : ofEntries libc (systemLib ++ [item]) with
  | none => rfl
  | some node =>
    obtain rfl := libc_only (by rw [there]; rfl)
    have found : (resolve (bare botbrew (ofEntries libc)) 40 (systemLib ++ ["libc.so".toList])).result =
        .found (systemLib ++ ["libc.so".toList]) := by decide +kernel
    rw [found] at missing
    cases missing

theorem libz_careful : CarefulSession botbrew 40 (ofEntries libc) libzActions (ofEntries libc) := by
  refine ⟨trivial, ?_, trivial⟩
  intro directory found
  have there : source botbrew 40 (ofEntries (libc ++ libzMount)) = some botbrew.lib := by decide +kernel
  have names : expand (namesIn (libc ++ libzMount) botbrew.lib) = ["libz.so".toList] := by decide +kernel
  obtain rfl := Option.some.inj (there.symm.trans found)
  change Careful botbrew 40 (ofEntries libc) (expand (namesIn (libc ++ libzMount) botbrew.lib))
    ((expand (namesIn (libc ++ libzMount) systemLib)).foldl (checkStale botbrew 40) (ofEntries (libc ++ libzMount)))
  rw [libz_cleaned, names]
  exact ⟨libz_unreserved, fun place misplaced => absurd misplaced (libz_placed place), trivial⟩

def libzUnmounted : Files := linked botbrew ["libz.so".toList] (ofEntries libc)

theorem libz_change : Change botbrew (ofEntries libc) (ofEntries (libc ++ libzMount)) := by
  apply change_append
  intro entry member
  left
  simp only [libzMount, List.mem_cons, List.not_mem_nil, or_false] at member
  obtain rfl | rfl | rfl := member
  · exact List.prefix_rfl
  · exact List.prefix_append _ _
  · exact (List.prefix_append _ _).trans (List.prefix_append _ _)

theorem libz_lists : Lists libzUnmounted systemLib ["libz.so".toList, "libc.so".toList] :=
  lists_linked (lists_namesIn (by decide +kernel) systemLib) (by decide) (by decide +kernel)

theorem unbootstrap_restores_libz :
    removeLinks botbrew 40 (fun _ => ["libz.so".toList, "libc.so".toList]) libzUnmounted
      (systemLib ++ ["libz.so".toList]) = ofEntries libc (systemLib ++ ["libz.so".toList]) := by
  apply unbootstrap_restores botbrew 40 (ofEntries libc) libzActions libzUnmounted
    (removeLinks botbrew 40 (fun _ => ["libz.so".toList, "libc.so".toList]) libzUnmounted)
    (fun _ => ["libz.so".toList, "libc.so".toList])
  · decide
  · exact (Real.nil.snoc rfl).snoc rfl
  · intro item _ there
    obtain rfl := libc_only there
    exact ⟨systemLib ++ ["libc.so".toList], by decide +kernel, by decide +kernel⟩
  · refine ⟨libz_change, ?_, trivial⟩
    intro directory name member
    simpa using (List.mem_filter.mp member).2
  · exact libz_careful
  · rw [libz_session]
    exact change_linked libz_change
  · intro item _ _
    exact .inl ⟨[], "botbrew".toList, ["lib".toList], rfl, .nil, by decide +kernel⟩
  · exact libz_lists
  · exact fun _ _ => rfl
  · exact by decide +kernel

/-- A link of somebody else that cannot be resolved is taken for one of `ldimport`. -/
theorem unbootstrap_removes_other :
    Real (ofEntries vendor) systemLib ∧ Lists (ofEntries vendor) systemLib (namesIn vendor systemLib) ∧
      readlink (ofEntries vendor) 40 (systemLib ++ ["libfoo.so".toList]) = none ∧
      (ofEntries vendor (systemLib ++ ["libfoo.so".toList])).isSome = true ∧
      removeLinks botbrew 40 (namesIn vendor) (ofEntries vendor) (systemLib ++ ["libfoo.so".toList]) = none :=
  ⟨(Real.nil.snoc rfl).snoc rfl, lists_namesIn (by decide +kernel) _, by decide +kernel, by decide +kernel,
    by decide +kernel⟩

end BotBrew.Unbootstrap
