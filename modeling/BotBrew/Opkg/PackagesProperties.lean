import Mathlib.Order.ConditionallyCompleteLattice.Basic
import Mathlib.Data.Int.ConditionallyCompleteOrder
import BotBrew.Opkg.Packages
import BotBrew.Opkg.VersionProperties

/-! The package loop keeps the newest version of every package. -/

set_option autoImplicit false

namespace BotBrew.Opkg

open Comparison

structure Package.Valid (pkg : Package) : Prop where
  no_colon : ':' ∉ pkg.name
  version : ∃ text, pkg.version = some text ∧ ValidVersion text

noncomputable def Package.rank (pkg : Package) :
    ℕ ×ₗ (Lex (ℕ → Text ×ₗ Int) ×ₗ Lex (ℕ → Text ×ₗ Int)) :=
  ((pkg.version.bind parse_version).getD { epoch := 0, version := [] }).rank

/-- Packages with versions compare as the texts of their versions do. -/
theorem Package.compare_version_eq {self ref : Package} {selftext reftext : Text}
    (selfText : self.version = some selftext) (refText : ref.version = some reftext) :
    self.compare_version ref = compareTexts selftext reftext := by
  simp [Package.compare_version, compareTexts, selfText, refText]

theorem Package.compare_version_sign {self ref : Package} (selfValid : self.Valid)
    (refValid : ref.Valid) :
    ∃ result, self.compare_version ref = some result ∧ Sign self.rank ref.rank result := by
  obtain ⟨selftext, selfText, selfVersion⟩ := selfValid.version
  obtain ⟨reftext, refText, refVersion⟩ := refValid.version
  obtain ⟨selfversion, refversion, result, selfParsed, refParsed, compared, sign⟩ :=
    compareTexts_sign selfVersion refVersion
  refine ⟨result, (Package.compare_version_eq selfText refText).trans compared, ?_⟩
  simpa [Package.rank, selfText, refText, selfParsed, refParsed] using sign

theorem pairName_inj {name arch name' arch' : Text} (free : ':' ∉ name) (free' : ':' ∉ name') :
    pairName name arch = pairName name' arch' ↔ name = name' ∧ arch = arch' := by
  constructor
  · intro same
    induction name generalizing name' with
    | nil =>
        cases name' with
        | nil => simpa [pairName] using same
        | cons char rest =>
            obtain ⟨rfl, _⟩ := List.cons.inj same
            simp at free'
    | cons char rest ih =>
        cases name' with
        | nil =>
            obtain ⟨rfl, _⟩ := List.cons.inj same
            simp at free
        | cons char' rest' =>
            simp only [List.mem_cons, not_or] at free free'
            obtain ⟨rfl, tails⟩ := List.cons.inj same
            obtain ⟨rfl, rfl⟩ := ih free.2 free'.2 tails
            exact ⟨rfl, rfl⟩
  · rintro ⟨rfl, rfl⟩
    rfl

namespace Packages

variable {packages packages' : Packages} {pkg : Package} {seen pkgs : List Package}

/-- `packages` has the newest version of everything that was added. -/
structure Newest (seen : List Package) (packages : Packages) : Prop where
  entry : ∀ key current, packages.lookup key = some current → current ∈ seen ∧ current.key = key
  newest : ∀ pkg ∈ seen, ∃ current, packages.lookup pkg.key = some current ∧
    pkg.rank ≤ current.rank

theorem newest_empty : Newest [] ∅ :=
  ⟨fun key current found => by simp at found, by simp⟩

theorem add_package_cases (valid : pkg.Valid)
    (entries : ∀ current, packages.lookup pkg.key = some current → current.Valid) :
    (packages.add_package pkg = some (packages.insert pkg.key pkg, 0) ∧
      ∀ current, packages.lookup pkg.key = some current → current.rank ≤ pkg.rank) ∨
    (packages.add_package pkg = some (packages, 1) ∧
      ∃ current, packages.lookup pkg.key = some current ∧ pkg.rank < current.rank) := by
  cases found : packages.lookup pkg.key with
  | none =>
      have absent : pkg.key ∉ packages := AList.lookup_eq_none.mp found
      obtain ⟨result, compared, sign⟩ := Package.compare_version_sign valid valid
      obtain rfl := Sign.refl_iff.mp sign
      refine .inl ⟨?_, by simp⟩
      simp [add_package, absent, compared, AList.insert_insert]
  | some current =>
      have present : pkg.key ∈ packages := AList.lookup_isSome.mp (by simp [found])
      obtain ⟨result, compared, sign⟩ := Package.compare_version_sign valid (entries current found)
      by_cases newer : 0 ≤ result
      · refine .inl ⟨by simp [add_package, present, found, compared, newer], ?_⟩
        intro other same
        obtain rfl := Option.some.inj same
        exact sign.nonneg_iff.mp newer
      · refine .inr ⟨by simp [add_package, present, found, compared, newer], current, rfl, ?_⟩
        exact lt_of_not_ge fun above => newer (sign.nonneg_iff.mpr above)

theorem Newest.add_package (newest : Newest seen packages) (valid : pkg.Valid)
    (entries : ∀ current ∈ seen, current.Valid) :
    ∃ packages' s, packages.add_package pkg = some (packages', s) ∧
      Newest (seen ++ [pkg]) packages' ∧ (s = 0 ↔ packages'.lookup pkg.key = some pkg) := by
  have found : ∀ current, packages.lookup pkg.key = some current → current.Valid :=
    fun current entry => entries current (newest.entry _ _ entry).1
  rcases add_package_cases valid found with ⟨added, older⟩ | ⟨added, current, entry, newer⟩
  · refine ⟨_, 0, added, ⟨fun key current entry => ?_, fun other member => ?_⟩, by simp⟩
    · by_cases same : key = pkg.key
      · subst same
        obtain rfl : pkg = current := by simpa using entry
        exact ⟨by simp, rfl⟩
      · rw [AList.lookup_insert_ne same] at entry
        obtain ⟨member, key⟩ := newest.entry _ _ entry
        exact ⟨List.mem_append_left _ member, key⟩
    · by_cases same : other.key = pkg.key
      · refine ⟨pkg, by rw [same, AList.lookup_insert], ?_⟩
        rcases List.mem_append.mp member with member | member
        · obtain ⟨current, entry, bound⟩ := newest.newest other member
          exact bound.trans (older current (same ▸ entry))
        · rw [List.mem_singleton.mp member]
      · rw [AList.lookup_insert_ne same]
        rcases List.mem_append.mp member with member | member
        · exact newest.newest other member
        · exact absurd (congrArg Package.key (List.mem_singleton.mp member)) same
  · refine ⟨packages, 1, added, ⟨fun key current entry => ?_, fun other member => ?_⟩, ?_⟩
    · obtain ⟨member, key⟩ := newest.entry _ _ entry
      exact ⟨List.mem_append_left _ member, key⟩
    · rcases List.mem_append.mp member with member | member
      · exact newest.newest other member
      · rw [List.mem_singleton.mp member]
        exact ⟨current, entry, newer.le⟩
    · rw [entry]
      refine iff_of_false Nat.one_ne_zero fun same => ?_
      rw [Option.some.inj same] at newer
      exact lt_irrefl _ newer

/-- Every loop over valid packages ends, and each call reports whether the
package became the entry. -/
theorem Newest.addAll (newest : Newest seen packages) (valid : ∀ pkg ∈ pkgs, pkg.Valid)
    (entries : ∀ current ∈ seen, current.Valid) :
    ∃ packages' statuses, packages.addAll pkgs = some (packages', statuses) ∧
      Newest (seen ++ pkgs) packages' := by
  induction pkgs generalizing seen packages with
  | nil => exact ⟨packages, [], rfl, by simpa using newest⟩
  | cons pkg rest ih =>
      obtain ⟨middle, s, added, newest', _⟩ := newest.add_package (valid pkg (by simp)) entries
      have entries' : ∀ current ∈ seen ++ [pkg], current.Valid := by
        intro current member
        rcases List.mem_append.mp member with member | member
        · exact entries current member
        · exact List.mem_singleton.mp member ▸ valid pkg (by simp)
      obtain ⟨packages', statuses, rest', final⟩ :=
        ih newest' (fun other member => valid other (by simp [member])) entries'
      refine ⟨packages', s :: statuses, ?_, by simpa using final⟩
      simp [Packages.addAll, added, rest']

theorem addAll_append {before after : List Package} {statuses : List Nat}
    (ran : packages.addAll (before ++ after) = some (packages', statuses)) :
    ∃ middle first second, packages.addAll before = some (middle, first) ∧
      middle.addAll after = some (packages', second) ∧ statuses = first ++ second := by
  induction before generalizing packages statuses with
  | nil => exact ⟨packages, [], statuses, rfl, ran, rfl⟩
  | cons pkg rest ih =>
      simp only [List.cons_append, Packages.addAll, Option.bind_eq_bind, Option.bind_eq_some_iff,
        Prod.exists, Option.some.injEq, Prod.mk.injEq] at ran
      obtain ⟨next, s, added, final, later, ran, rfl, rfl⟩ := ran
      obtain ⟨middle, first, second, ranFirst, ranSecond, rfl⟩ := ih ran
      refine ⟨middle, s :: first, second, ?_, ranSecond, rfl⟩
      simp [Packages.addAll, added, ranFirst]

theorem addAll_of_append {before after : List Package} {middle : Packages} {first second : List Nat}
    (ranFirst : packages.addAll before = some (middle, first))
    (ranSecond : middle.addAll after = some (packages', second)) :
    packages.addAll (before ++ after) = some (packages', first ++ second) := by
  induction before generalizing packages first with
  | nil =>
      cases ranFirst
      exact ranSecond
  | cons pkg rest ih =>
      simp only [Packages.addAll, Option.bind_eq_bind, Option.bind_eq_some_iff, Prod.exists,
        Option.some.injEq, Prod.mk.injEq] at ranFirst
      obtain ⟨next, s, added, _, later, ran, rfl, rfl⟩ := ranFirst
      simp [Packages.addAll, added, ih ran]

/-- What the index offers after the loop over `pkgs`, and what the calls returned. -/
structure OffersNewest (packages : Packages) (pkgs : List Package) (statuses : List Nat) :
    Prop where
  pairs : ∀ name arch, ':' ∉ name →
    (pairName name arch ∈ packages ↔ ∃ pkg ∈ pkgs, pkg.name = name ∧ pkg.arch = arch)
  only : ∀ key ∈ packages, ∃ pkg ∈ pkgs, pkg.key = key
  newest : ∀ pkg ∈ pkgs, ∃ entry ∈ pkgs, packages.lookup pkg.key = some entry ∧
    entry.name = pkg.name ∧ entry.arch = pkg.arch ∧
    ∃ result, entry.compare_version pkg = some result ∧ 0 ≤ result
  returns : ∀ before pkg after, pkgs = before ++ pkg :: after → ∃ turn earlier s,
    (∅ : Packages).addAll (before ++ [pkg]) = some (turn, earlier ++ [s]) ∧
      statuses[before.length]? = some s ∧ (s = 0 ↔ turn.lookup pkg.key = some pkg)

theorem addAll_length {statuses : List Nat}
    (ran : packages.addAll pkgs = some (packages', statuses)) : statuses.length = pkgs.length := by
  induction pkgs generalizing packages statuses with
  | nil =>
      simp only [Packages.addAll, Option.some.injEq, Prod.mk.injEq] at ran
      obtain ⟨_, rfl⟩ := ran
      rfl
  | cons pkg rest ih =>
      simp only [Packages.addAll, Option.bind_eq_bind, Option.bind_eq_some_iff, Prod.exists,
        Option.some.injEq, Prod.mk.injEq] at ran
      obtain ⟨_, _, _, _, later, ran, rfl, rfl⟩ := ran
      simp [ih ran]

theorem Newest.name_arch (newest : Newest pkgs packages) (valid : ∀ pkg ∈ pkgs, pkg.Valid)
    (member : pkg ∈ pkgs) {entry : Package} (found : packages.lookup pkg.key = some entry) :
    entry.name = pkg.name ∧ entry.arch = pkg.arch := by
  obtain ⟨entryMember, key⟩ := newest.entry _ _ found
  exact (pairName_inj (valid entry entryMember).no_colon (valid pkg member).no_colon).mp key

theorem Newest.offers {statuses : List Nat} (newest : Newest pkgs packages)
    (valid : ∀ pkg ∈ pkgs, pkg.Valid)
    (ran : (∅ : Packages).addAll pkgs = some (packages, statuses)) :
    OffersNewest packages pkgs statuses := by
  refine ⟨fun name arch free => ⟨fun present => ?_, ?_⟩, fun key present => ?_,
    fun pkg member => ?_, ?_⟩
  · obtain ⟨entry, found⟩ := Option.isSome_iff_exists.mp (AList.lookup_isSome.mpr present)
    obtain ⟨member, key⟩ := newest.entry _ _ found
    exact ⟨entry, member, (pairName_inj (valid entry member).no_colon free).mp key⟩
  · rintro ⟨pkg, member, rfl, rfl⟩
    obtain ⟨entry, found, _⟩ := newest.newest pkg member
    exact AList.lookup_isSome.mp (Option.isSome_iff_exists.mpr ⟨entry, found⟩)
  · obtain ⟨entry, found⟩ := Option.isSome_iff_exists.mp (AList.lookup_isSome.mpr present)
    exact ⟨entry, newest.entry _ _ found⟩
  · obtain ⟨entry, found, bound⟩ := newest.newest pkg member
    obtain ⟨entryMember, _⟩ := newest.entry _ _ found
    obtain ⟨result, compared, sign⟩ :=
      Package.compare_version_sign (valid entry entryMember) (valid pkg member)
    obtain ⟨names, archs⟩ := newest.name_arch valid member found
    exact ⟨entry, entryMember, found, names, archs, result, compared, sign.nonneg_iff.mpr bound⟩
  · rintro before pkg after rfl
    obtain ⟨middle, first, second, ranFirst, ranSecond, rfl⟩ := addAll_append ran
    have validBefore : ∀ current ∈ before, current.Valid :=
      fun current member => valid current (by simp [member])
    obtain ⟨_, _, ranBefore, newestBefore⟩ :=
      newest_empty.addAll validBefore (fun _ member => by cases member)
    rw [ranFirst] at ranBefore
    cases ranBefore
    obtain ⟨turn, s, added, _, status⟩ :=
      newestBefore.add_package (valid pkg (by simp)) validBefore
    have single : middle.addAll [pkg] = some (turn, [s]) := by simp [Packages.addAll, added]
    refine ⟨turn, first, s, addAll_of_append ranFirst single, ?_, status⟩
    simp only [Packages.addAll, added, Option.bind_eq_bind, Option.bind_some,
      Option.bind_eq_some_iff, Prod.exists, Option.some.injEq, Prod.mk.injEq] at ranSecond
    obtain ⟨_, later, _, _, rfl⟩ := ranSecond
    simp [← addAll_length ranFirst]

/-- Two orders of the same packages end with entries of equal versions. -/
theorem Newest.perm {other : List Package} (newest : Newest pkgs packages)
    (newest' : Newest other packages') (valid : ∀ pkg ∈ pkgs, pkg.Valid) (same : other.Perm pkgs)
    {key : Text} {entry : Package} (found : packages.lookup key = some entry) :
    ∃ entry', packages'.lookup key = some entry' ∧ entry.compare_version entry' = some 0 := by
  obtain ⟨member, rfl⟩ := newest.entry _ _ found
  obtain ⟨entry', found', below⟩ := newest'.newest entry (same.mem_iff.mpr member)
  obtain ⟨member', key'⟩ := newest'.entry _ _ found'
  obtain ⟨back, foundBack, above⟩ := newest.newest entry' (same.mem_iff.mp member')
  rw [key', found] at foundBack
  obtain rfl := Option.some.inj foundBack
  obtain ⟨result, compared, sign⟩ := Package.compare_version_sign (valid entry member)
    (valid entry' (same.mem_iff.mp member'))
  obtain rfl := sign.eq_zero_iff.mpr (le_antisymm below above)
  exact ⟨entry', found', compared⟩

end Packages

/-- `compare` is a total preorder of version strings. Two are equal when their
epochs and the runs of their upstream parts and of their revisions are. -/
structure OrdersVersions : Prop where
  total : ∀ self ref, ValidVersion self → ValidVersion ref →
    ∃ result, compareTexts self ref = some result ∧ result ∈ [-1, 0, 1]
  refl : ∀ self, ValidVersion self → compareTexts self self = some 0
  antisymm : ∀ self ref result, ValidVersion self → ValidVersion ref →
    compareTexts self ref = some result → compareTexts ref self = some (-result)
  trans : ∀ first second third result result', ValidVersion first → ValidVersion second →
    ValidVersion third → compareTexts first second = some result →
    compareTexts second third = some result' → 0 ≤ result → 0 ≤ result' →
    ∃ result'', compareTexts first third = some result'' ∧ 0 ≤ result''
  equal : ∀ self ref, ValidVersion self → ValidVersion ref →
    ∃ selfversion refversion, parse_version self = some selfversion ∧
      parse_version ref = some refversion ∧
      (compareTexts self ref = some 0 ↔ selfversion.epoch = refversion.epoch ∧
        runs selfversion.parts.1 = runs refversion.parts.1 ∧
        runs selfversion.parts.2 = runs refversion.parts.2)

theorem ordersVersions : OrdersVersions where
  total self ref selfValid refValid := by
    obtain ⟨_, _, result, _, _, compared, sign⟩ := compareTexts_sign selfValid refValid
    refine ⟨result, compared, ?_⟩
    cases sign <;> simp
  refl self valid := by
    obtain ⟨version, version', result, parsed, parsed', compared, sign⟩ :=
      compareTexts_sign valid valid
    obtain rfl := Option.some.inj (parsed.symm.trans parsed')
    rw [compared, Sign.refl_iff.mp sign]
  antisymm self ref result selfValid refValid compared := by
    obtain ⟨selfversion, refversion, result', selfParsed, refParsed, compared', sign⟩ :=
      compareTexts_sign selfValid refValid
    obtain rfl := Option.some.inj (compared.symm.trans compared')
    obtain ⟨refversion', selfversion', back, refParsed', selfParsed', comparedBack, signBack⟩ :=
      compareTexts_sign refValid selfValid
    obtain rfl := Option.some.inj (selfParsed.symm.trans selfParsed')
    obtain rfl := Option.some.inj (refParsed.symm.trans refParsed')
    rw [comparedBack, signBack.unique sign.swap]
  trans first second third result result' firstValid secondValid thirdValid compared compared'
      above above' := by
    obtain ⟨v₁, v₂, r, parsed₁, parsed₂, ran, sign⟩ := compareTexts_sign firstValid secondValid
    obtain ⟨w₂, v₃, r', parsed₂', parsed₃, ran', sign'⟩ :=
      compareTexts_sign secondValid thirdValid
    obtain ⟨w₁, w₃, r'', parsed₁', parsed₃', ran'', sign''⟩ :=
      compareTexts_sign firstValid thirdValid
    obtain rfl := Option.some.inj (compared.symm.trans ran)
    obtain rfl := Option.some.inj (compared'.symm.trans ran')
    obtain rfl := Option.some.inj (parsed₁.symm.trans parsed₁')
    obtain rfl := Option.some.inj (parsed₂.symm.trans parsed₂')
    obtain rfl := Option.some.inj (parsed₃.symm.trans parsed₃')
    refine ⟨r'', ran'', sign''.nonneg_iff.mpr ?_⟩
    exact (sign'.nonneg_iff.mp above').trans (sign.nonneg_iff.mp above)
  equal self ref selfValid refValid := by
    obtain ⟨selfversion, refversion, result, selfParsed, refParsed, compared, sign⟩ :=
      compareTexts_sign selfValid refValid
    refine ⟨selfversion, refversion, selfParsed, refParsed, ?_⟩
    rw [compared, Option.some.injEq, sign.eq_zero_iff, rank_eq_iff]

/-- The loop of `opkg-make-index` keeps the newest version of every package, in
whatever order it meets them. -/
theorem index_offers_newest (pkgs : List Package) (valid : ∀ pkg ∈ pkgs, pkg.Valid) :
    OrdersVersions ∧ ∃ packages statuses,
      (∅ : Packages).addAll pkgs = some (packages, statuses) ∧
        packages.OffersNewest pkgs statuses ∧
        ∀ pkgs' : List Package, pkgs'.Perm pkgs → ∃ packages' statuses',
          (∅ : Packages).addAll pkgs' = some (packages', statuses') ∧
            ∀ key entry, packages.lookup key = some entry →
              ∃ entry', packages'.lookup key = some entry' ∧
                entry.compare_version entry' = some 0 := by
  have none : ∀ current ∈ ([] : List Package), current.Valid := fun _ member => by cases member
  obtain ⟨packages, statuses, ran, newest⟩ := Packages.newest_empty.addAll valid none
  refine ⟨ordersVersions, packages, statuses, ran, newest.offers valid ran, fun pkgs' same => ?_⟩
  have valid' : ∀ pkg ∈ pkgs', pkg.Valid := fun pkg member => valid pkg (same.mem_iff.mp member)
  obtain ⟨packages', statuses', ran', newest'⟩ := Packages.newest_empty.addAll valid' none
  exact ⟨packages', statuses', ran', fun key entry found => newest.perm newest' valid same found⟩

def zlibBuilds : List Package :=
  ["1.2.7-r1", "1.2.10-r0"].map fun version =>
    ((Package.empty.set "package".toList "zlib".toList).set "architecture".toList
      "arm".toList).set "version".toList version.toList

theorem zlibBuilds_valid : ∀ pkg ∈ zlibBuilds, pkg.Valid := by
  intro pkg member
  simp only [zlibBuilds, List.map_cons, List.map_nil, List.mem_cons, List.not_mem_nil,
    or_false] at member
  rcases member with rfl | rfl
  · exact ⟨by decide, _, rfl, ⟨by decide, by decide⟩, by decide, by decide⟩
  · exact ⟨by decide, _, rfl, ⟨by decide, by decide⟩, by decide, by decide⟩

theorem index_offers_newest_zlib :
    OrdersVersions ∧ ∃ packages statuses,
      (∅ : Packages).addAll zlibBuilds = some (packages, statuses) ∧
        packages.OffersNewest zlibBuilds statuses ∧
        ∀ pkgs' : List Package, pkgs'.Perm zlibBuilds → ∃ packages' statuses',
          (∅ : Packages).addAll pkgs' = some (packages', statuses') ∧
            ∀ key entry, packages.lookup key = some entry →
              ∃ entry', packages'.lookup key = some entry' ∧
                entry.compare_version entry' = some 0 :=
  index_offers_newest zlibBuilds zlibBuilds_valid

end BotBrew.Opkg
