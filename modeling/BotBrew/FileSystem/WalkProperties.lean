import BotBrew.FileSystem.Basic
import Mathlib.Data.List.Nodup

/-! Walks in a tree from which links are taken away. -/

set_option autoImplicit false

namespace BotBrew.FileSystem

variable {files : Files} {limit : Nat} {current : Path} {rest : List Part} {name : Text}

/-! ## Single steps -/

@[simp] theorem walk_nil : walk files limit current [] = ⟨.found current, []⟩ := by
  cases limit <;> rfl

@[simp] theorem walk_here : walk files limit current (.here :: rest) = walk files limit current rest := by
  cases limit <;> rfl

@[simp] theorem walk_parent :
    walk files limit current (.parent :: rest) = walk files limit current.dropLast rest := by
  cases limit <;> rfl

theorem walk_none (absent : files (current ++ [name]) = none) :
    walk files limit current (.name name :: rest) =
      ⟨if rest = [] then .missing (current ++ [name]) else .failed, []⟩ := by
  cases limit <;> simp only [walk, step, absent]

theorem walk_directory (found : files (current ++ [name]) = some .directory) :
    walk files limit current (.name name :: rest) = walk files limit (current ++ [name]) rest := by
  cases limit <;> simp only [walk, step, found]

theorem walk_file {content : Text} (found : files (current ++ [name]) = some (.file content)) :
    walk files limit current (.name name :: rest) =
      ⟨if rest = [] then .found (current ++ [name]) else .failed, []⟩ := by
  cases limit <;> simp only [walk, step, found]

theorem walk_stop {target : Target} (found : files (current ++ [name]) = some (.link target)) :
    walk files 0 current (.name name :: rest) = ⟨.failed, [current ++ [name]]⟩ := by
  simp only [walk, step, found, Walk.via]

theorem walk_link {target : Target} (found : files (current ++ [name]) = some (.link target)) :
    walk files (limit + 1) current (.name name :: rest) =
      (walk files limit (target.start current) (target.parts ++ rest)).via (current ++ [name]) := by
  simp only [walk, step, found]

theorem walk_induction (files : Files) {motive : Nat → Path → List Part → Prop}
    (nil : ∀ limit current, motive limit current [])
    (here : ∀ limit current rest, motive limit current rest → motive limit current (.here :: rest))
    (parent : ∀ limit current rest, motive limit current.dropLast rest → motive limit current (.parent :: rest))
    (none : ∀ limit current name rest, files (current ++ [name]) = none →
      motive limit current (.name name :: rest))
    (directory : ∀ limit current name rest, files (current ++ [name]) = some .directory →
      motive limit (current ++ [name]) rest → motive limit current (.name name :: rest))
    (file : ∀ limit current name rest content, files (current ++ [name]) = some (.file content) →
      motive limit current (.name name :: rest))
    (stop : ∀ current name rest target, files (current ++ [name]) = some (.link target) →
      motive 0 current (.name name :: rest))
    (link : ∀ limit current name rest target, files (current ++ [name]) = some (.link target) →
      motive limit (target.start current) (target.parts ++ rest) →
      motive (limit + 1) current (.name name :: rest))
    (limit : Nat) (current : Path) (rest : List Part) : motive limit current rest := by
  induction limit generalizing current rest with
  | zero =>
    induction rest generalizing current with
    | nil => exact nil 0 current
    | cons part rest hypothesis =>
      cases part with
      | here => exact here 0 current rest (hypothesis current)
      | parent => exact parent 0 current rest (hypothesis _)
      | name name =>
        cases found : files (current ++ [name]) with
        | none => exact none 0 current name rest found
        | some node =>
          cases node with
          | directory => exact directory 0 current name rest found (hypothesis _)
          | file content => exact file 0 current name rest content found
          | link target => exact stop current name rest target found
  | succ limit follows =>
    induction rest generalizing current with
    | nil => exact nil _ current
    | cons part rest hypothesis =>
      cases part with
      | here => exact here _ current rest (hypothesis current)
      | parent => exact parent _ current rest (hypothesis _)
      | name name =>
        cases found : files (current ++ [name]) with
        | none => exact none _ current name rest found
        | some node =>
          cases node with
          | directory => exact directory _ current name rest found (hypothesis _)
          | file content => exact file _ current name rest content found
          | link target => exact link limit current name rest target found (follows _ _)

/-! ## Limits, beginnings and ends -/

/-- A walk that does not fail needs no more links than it has. -/
theorem walk_limit {more : Nat} (arrives : (walk files limit current rest).result ≠ .failed)
    (enough : limit ≤ more) : walk files more current rest = walk files limit current rest := by
  induction limit, current, rest using walk_induction files generalizing more with
  | nil => simp
  | here limit current rest hypothesis => simpa using hypothesis (by simpa using arrives) enough
  | parent limit current rest hypothesis => simpa using hypothesis (by simpa using arrives) enough
  | none limit current name rest absent => rw [walk_none absent, walk_none absent]
  | directory limit current name rest found hypothesis =>
    rw [walk_directory found] at arrives ⊢
    rw [walk_directory found]
    exact hypothesis arrives enough
  | file limit current name rest content found => rw [walk_file found, walk_file found]
  | stop current name rest target found =>
    rw [walk_stop found] at arrives
    exact absurd rfl arrives
  | link limit current name rest target found hypothesis =>
    rw [walk_link found] at arrives ⊢
    obtain ⟨more, rfl⟩ := Nat.exists_eq_add_of_le' (Nat.zero_lt_of_lt enough)
    rw [walk_link found, hypothesis arrives (Nat.le_of_succ_le_succ enough)]

theorem walk_append_found {first : List Part} (more : rest ≠ [])
    (arrives : (walk files limit current (first ++ rest)).result ≠ .failed) :
    ∃ path, (walk files limit current first).result = .found path := by
  induction limit, current, first using walk_induction files with
  | nil limit current => exact ⟨current, by simp⟩
  | here limit current first hypothesis => simpa using hypothesis (by simpa using arrives)
  | parent limit current first hypothesis => simpa using hypothesis (by simpa using arrives)
  | none limit current name first absent =>
    rw [List.cons_append, walk_none absent, if_neg (by simp [more])] at arrives
    exact absurd rfl arrives
  | directory limit current name first found hypothesis =>
    rw [List.cons_append, walk_directory found] at arrives
    rw [walk_directory found]
    exact hypothesis arrives
  | file limit current name first content found =>
    rw [List.cons_append, walk_file found, if_neg (by simp [more])] at arrives
    exact absurd rfl arrives
  | stop current name first target found =>
    rw [List.cons_append, walk_stop found] at arrives
    exact absurd rfl arrives
  | link limit current name first target found hypothesis =>
    rw [List.cons_append, walk_link found, ← List.append_assoc] at arrives
    rw [walk_link found]
    exact hypothesis arrives

theorem Real.dropLast {directory : Path} (real : Real files directory) : Real files directory.dropLast :=
  fun path leads nonempty => real path (leads.trans (List.dropLast_prefix _)) nonempty

theorem Real.snoc {directory : Path} (real : Real files directory)
    (found : files (directory ++ [name]) = some .directory) : Real files (directory ++ [name]) := by
  intro path leads nonempty
  obtain rfl | leads := List.prefix_concat_iff.mp leads
  · exact found
  · exact real path leads nonempty

theorem Real.nil : Real files [] := fun _ leads nonempty => absurd (List.prefix_nil.mp leads) nonempty

theorem Real.start {directory : Path} (real : Real files directory) (target : Target) :
    Real files (target.start directory) := by
  rw [Target.start]
  split
  · exact .nil
  · exact real

theorem Real.walk {names : List Text} (real : Real files (current ++ names)) :
    walk files limit current (names.map .name ++ rest) = walk files limit (current ++ names) rest := by
  induction names generalizing current with
  | nil => simp
  | cons name names hypothesis =>
    have found : files (current ++ [name]) = some .directory :=
      real _ ⟨names, by simp⟩ (by simp)
    rw [List.map_cons, List.cons_append, walk_directory found, hypothesis (by simpa using real)]
    simp

theorem Real.resolve {directory : Path} (real : Real files directory) (name : Text) :
    resolve files limit (directory ++ [name]) = FileSystem.walk files limit directory [.name name] := by
  have root : Real files ([] ++ directory) := real
  rw [FileSystem.resolve, List.map_append]
  exact root.walk

/-- From a link on its way, a walk leads to the same end, or the link leads to something
behind which the walk goes on. -/
theorem walk_from_link {files : Files} {limit bound : Nat} {current link : Path} {rest : List Part}
    {before after : List Path} (real : Real files current) (enough : limit ≤ bound)
    (arrives : (walk files limit current rest).result ≠ .failed)
    (passes : (walk files limit current rest).links = before ++ link :: after) :
    resolve files bound link = ⟨(walk files limit current rest).result, link :: after⟩ ∨
      ∃ path, (resolve files bound link).result = .found path := by
  induction limit, current, rest using walk_induction files generalizing before bound with
  | nil => simp at passes
  | here limit current rest hypothesis =>
    simp only [walk_here] at arrives passes ⊢
    exact hypothesis real enough arrives passes
  | parent limit current rest hypothesis =>
    simp only [walk_parent] at arrives passes ⊢
    exact hypothesis real.dropLast enough arrives passes
  | none limit current name rest absent =>
    rw [walk_none absent] at passes
    simp at passes
  | directory limit current name rest found hypothesis =>
    rw [walk_directory found] at arrives passes ⊢
    exact hypothesis (real.snoc found) enough arrives passes
  | file limit current name rest content found =>
    rw [walk_file found] at passes
    simp at passes
  | stop current name rest target found =>
    rw [walk_stop found] at arrives
    exact absurd rfl arrives
  | link limit current name rest target found hypothesis =>
    rw [walk_link found] at arrives passes ⊢
    cases before with
    | cons first before =>
      exact hypothesis (real.start target) (Nat.le_of_succ_le enough) arrives (List.cons.inj passes).2
    | nil =>
      obtain ⟨rfl, rfl⟩ := List.cons.inj passes
      obtain ⟨bound, rfl⟩ := Nat.exists_eq_add_of_le' (Nat.zero_lt_of_lt enough)
      have enough : limit ≤ bound := Nat.le_of_succ_le_succ enough
      rw [real.resolve, walk_link found, List.append_nil]
      cases rest with
      | nil =>
        left
        rw [List.append_nil] at arrives ⊢
        rw [walk_limit arrives enough]
        rfl
      | cons part rest =>
        right
        obtain ⟨path, leads⟩ := walk_append_found (List.cons_ne_nil part rest) arrives
        exact ⟨path, by rw [Walk.via, walk_limit (by simp [leads]) enough, leads]⟩

theorem walk_links_are_links {link : Path} (passed : link ∈ (walk files limit current rest).links) :
    ∃ target, files link = some (.link target) := by
  induction limit, current, rest using walk_induction files with
  | nil => simp at passed
  | here limit current rest hypothesis => exact hypothesis (by simpa using passed)
  | parent limit current rest hypothesis => exact hypothesis (by simpa using passed)
  | none limit current name rest absent => simp [walk_none absent] at passed
  | directory limit current name rest found hypothesis => exact hypothesis (by rwa [walk_directory found] at passed)
  | file limit current name rest content found => simp [walk_file found] at passed
  | stop current name rest target found =>
    rw [walk_stop found] at passed
    exact ⟨target, List.mem_singleton.mp passed ▸ found⟩
  | link limit current name rest target found hypothesis =>
    rw [walk_link found] at passed
    obtain rfl | passed := List.mem_cons.mp passed
    · exact ⟨target, found⟩
    · exact hypothesis passed

theorem walk_missing_absent {path : Path} (missing : (walk files limit current rest).result = .missing path) :
    files path = none := by
  induction limit, current, rest using walk_induction files with
  | nil => simp at missing
  | here limit current rest hypothesis => exact hypothesis (by simpa using missing)
  | parent limit current rest hypothesis => exact hypothesis (by simpa using missing)
  | none limit current name rest absent =>
    rw [walk_none absent] at missing
    cases rest with
    | nil => cases missing; exact absent
    | cons part rest => simp at missing
  | directory limit current name rest found hypothesis => exact hypothesis (by rwa [walk_directory found] at missing)
  | file limit current name rest content found =>
    rw [walk_file found] at missing
    cases rest <;> simp at missing
  | stop current name rest target found => simp [walk_stop found] at missing
  | link limit current name rest target found hypothesis => exact hypothesis (by rwa [walk_link found] at missing)

/-! ## Taking links away -/

/-- The smaller tree is the larger one without some of its links. -/
structure Fewer (small large : Files) : Prop where
  kept : ∀ path node, small path = some node → large path = some node
  links : ∀ path node, large path = some node → small path = none → ∃ target, node = .link target

theorem Fewer.refl (files : Files) : Fewer files files where
  kept _ _ found := found
  links _ _ found absent := by simp [absent] at found

theorem Fewer.trans {small middle large : Files} (first : Fewer small middle) (second : Fewer middle large) :
    Fewer small large where
  kept path node found := second.kept path node (first.kept path node found)
  links path node found absent := by
    cases between : middle path with
    | none => exact second.links path node found between
    | some other =>
      have same : node = other := Option.some.inj (found.symm.trans (second.kept path other between))
      rw [same]
      exact first.links path other between absent

variable {small large : Files}

theorem Fewer.absent (fewer : Fewer small large) {path : Path} (absent : large path = none) :
    small path = none := by
  cases found : small path with
  | none => rfl
  | some node => simp [fewer.kept path node found] at absent

theorem Fewer.other (fewer : Fewer small large) {path : Path} {node : Node} (found : large path = some node)
    (other : ∀ target, node ≠ .link target) : small path = some node := by
  cases stays : small path with
  | none =>
    obtain ⟨target, same⟩ := fewer.links path node found stays
    exact absurd same (other target)
  | some left => exact (fewer.kept path left stays).symm.trans found

theorem Fewer.directory (fewer : Fewer small large) {path : Path} (found : large path = some .directory) :
    small path = some .directory :=
  fewer.other found fun _ same => nomatch same

theorem Fewer.stays (fewer : Fewer small large) {path : Path} {node : Node} (found : large path = some node)
    (stays : (small path).isSome = true) : small path = some node := by
  obtain ⟨left, same⟩ := Option.isSome_iff_exists.mp stays
  rw [same, ← fewer.kept path left same, found]

theorem Fewer.walk_avoids (fewer : Fewer small large)
    (avoids : ∀ link ∈ (walk large limit current rest).links, (small link).isSome = true) :
    walk small limit current rest = walk large limit current rest := by
  induction limit, current, rest using walk_induction large with
  | nil => simp
  | here limit current rest hypothesis => simpa using hypothesis (by simpa using avoids)
  | parent limit current rest hypothesis => simpa using hypothesis (by simpa using avoids)
  | none limit current name rest absent => rw [walk_none absent, walk_none (fewer.absent absent)]
  | directory limit current name rest found hypothesis =>
    rw [walk_directory found] at avoids ⊢
    rw [walk_directory (fewer.directory found)]
    exact hypothesis avoids
  | file limit current name rest content found =>
    rw [walk_file found, walk_file (fewer.other found fun _ same => nomatch same)]
  | stop current name rest target found =>
    rw [walk_stop found] at avoids ⊢
    have stays : (small (current ++ [name])).isSome = true := avoids _ (by simp)
    rw [walk_stop (fewer.stays found stays)]
  | link limit current name rest target found hypothesis =>
    rw [walk_link found] at avoids ⊢
    have stays : (small (current ++ [name])).isSome = true := avoids _ (by simp [Walk.via])
    rw [walk_link (fewer.stays found stays)]
    rw [hypothesis fun link passed => avoids link (by simp [Walk.via, passed])]

theorem avoids_or_hits (files : Files) (links : List Path) :
    (∀ link ∈ links, (files link).isSome = true) ∨ ∃ link ∈ links, files link = none := by
  cases Decidable.em (∃ link ∈ links, files link = none) with
  | inl hits => exact .inr hits
  | inr avoids =>
    exact .inl fun link passed => Option.isSome_iff_ne_none.mpr fun absent => avoids ⟨link, passed, absent⟩

/-- Entries that are added do not change where a walk leads, unless it ended at one of them. -/
theorem walk_grows (kept : ∀ path node, small path = some node → large path = some node)
    (arrives : (walk small limit current rest).result ≠ .failed)
    (absent : ∀ path, (walk small limit current rest).result = .missing path → large path = none) :
    walk large limit current rest = walk small limit current rest := by
  induction limit, current, rest using walk_induction small with
  | nil => simp
  | here limit current rest hypothesis => simpa using hypothesis (by simpa using arrives) (by simpa using absent)
  | parent limit current rest hypothesis => simpa using hypothesis (by simpa using arrives) (by simpa using absent)
  | none limit current name rest missing =>
    rw [walk_none missing] at arrives absent ⊢
    cases rest with
    | nil => rw [walk_none (absent _ rfl)]
    | cons part rest => exact absurd rfl arrives
  | directory limit current name rest found hypothesis =>
    rw [walk_directory found] at arrives absent ⊢
    rw [walk_directory (kept _ _ found)]
    exact hypothesis arrives absent
  | file limit current name rest content found => rw [walk_file found, walk_file (kept _ _ found)]
  | stop current name rest target found => rw [walk_stop found, walk_stop (kept _ _ found)]
  | link limit current name rest target found hypothesis =>
    rw [walk_link found] at arrives absent ⊢
    rw [walk_link (kept _ _ found), hypothesis arrives absent]

theorem Fewer.walk_found (fewer : Fewer small large) {path : Path}
    (found : (walk small limit current rest).result = .found path) :
    walk large limit current rest = walk small limit current rest :=
  walk_grows fewer.kept (by simp [found]) (by simp [found])

theorem Fewer.walk_missing (fewer : Fewer small large) {path : Path}
    (missing : (walk small limit current rest).result = .missing path) (absent : large path = none) :
    walk large limit current rest = walk small limit current rest :=
  walk_grows fewer.kept (by simp [missing]) (by simpa [missing] using absent)

theorem Fewer.walk_stays (fewer : Fewer small large) {bound : Nat} {path : Path} (real : Real large current)
    (enough : limit ≤ bound)
    (dangling : ∀ link node, large link = some node → small link = none → exists? large bound link = false)
    (found : (walk large limit current rest).result = .found path) :
    walk small limit current rest = walk large limit current rest := by
  obtain avoids | ⟨link, passed, goes⟩ := avoids_or_hits small (walk large limit current rest).links
  · exact fewer.walk_avoids avoids
  · obtain ⟨before, after, passes⟩ := List.append_of_mem passed
    obtain ⟨target, there⟩ := walk_links_are_links passed
    have leads : exists? large bound link = true := by
      obtain same | ⟨other, same⟩ := walk_from_link real enough (by simp [found]) passes
      · simp [exists?, same, found]
      · simp [exists?, same]
    simp [dangling link _ there goes] at leads

theorem Fewer.real (fewer : Fewer small large) {directory : Path} :
    Real small directory ↔ Real large directory := by
  constructor
  · exact fun real path leads nonempty => fewer.kept path _ (real path leads nonempty)
  · exact fun real path leads nonempty => fewer.directory (real path leads nonempty)

theorem Fewer.exists_of_exists (fewer : Fewer small large) {path : Path}
    (leads : exists? small limit path = true) : exists? large limit path = true := by
  cases result : (resolve small limit path).result with
  | found other => rwa [exists?, resolve, fewer.walk_found result]
  | missing other => simp [exists?, result] at leads
  | failed => simp [exists?, result] at leads

/-- Links that lead to nothing can be taken away without a change of what exists. -/
theorem Fewer.exists_iff (fewer : Fewer small large)
    (dangling : ∀ link node, large link = some node → small link = none → exists? large limit link = false)
    (path : Path) : exists? small limit path = exists? large limit path := by
  rw [Bool.eq_iff_iff]
  constructor
  · exact fewer.exists_of_exists
  · intro leads
    cases result : (resolve large limit path).result with
    | found other => rwa [exists?, resolve, fewer.walk_stays .nil le_rfl dangling result]
    | missing other => simp [exists?, result] at leads
    | failed => simp [exists?, result] at leads

/-! ## Single paths -/

theorem exists_iff {path : Path} :
    exists? files limit path = true ↔ ∃ other, (resolve files limit path).result = .found other := by
  rw [exists?]
  cases (resolve files limit path).result <;> simp

theorem Real.resolve_directory {directory : Path} (real : Real files directory) :
    FileSystem.resolve files limit directory = ⟨.found directory, []⟩ := by
  have root : Real files ([] ++ directory) := real
  have walked : FileSystem.walk files limit [] (directory.map .name ++ []) =
    FileSystem.walk files limit ([] ++ directory) [] := root.walk
  simpa [FileSystem.resolve] using walked

theorem Real.resolve_absent {directory : Path} (real : Real files directory)
    (absent : files (directory ++ [name]) = none) :
    FileSystem.resolve files limit (directory ++ [name]) = ⟨.missing (directory ++ [name]), []⟩ := by
  rw [real.resolve, walk_none absent, if_pos rfl]

/-- Something that is not found, although it is there, is a link. -/
theorem Real.link_of_lost {directory : Path} (real : Real files directory) (limit : Nat)
    (there : (files (directory ++ [name])).isSome = true)
    (lost : exists? files limit (directory ++ [name]) = false) :
    ∃ target, files (directory ++ [name]) = some (.link target) := by
  cases found : files (directory ++ [name]) with
  | none => simp [found] at there
  | some node =>
    cases node with
    | directory => simp [exists?, real.resolve, walk_directory found] at lost
    | file content => simp [exists?, real.resolve, walk_file found] at lost
    | link target => exact ⟨target, rfl⟩

theorem unlink_link {path : Path} {target : Target} (found : files path = some (.link target)) :
    unlink files path = remove files path :=
  if_neg (by simp [found])

theorem fewer_remove {path : Path} {target : Target} (found : files path = some (.link target)) :
    Fewer (remove files path) files where
  kept other node stays := by
    rw [remove] at stays
    split at stays
    · cases stays
    · exact stays
  links other node there goes := by
    rw [remove] at goes
    split at goes
    case isTrue same =>
      rw [same, found] at there
      exact ⟨target, (Option.some.inj there).symm⟩
    case isFalse => simp [there] at goes

theorem fewer_write {path : Path} (absent : files path = none) (target : Target) :
    Fewer files (write files path (.link target)) where
  kept other node found := by
    rw [write]
    split
    case isTrue same => simp [same, absent] at found
    case isFalse => exact found
  links other node there absent := by
    rw [write] at there
    split at there
    · exact ⟨target, (Option.some.inj there).symm⟩
    · simp [absent] at there

/-! ## Trees with finitely many entries -/

theorem isSome_ofEntries {entries : List (Path × Node)} {path : Path} :
    (ofEntries entries path).isSome = true ↔ path ∈ entries.map Prod.fst := by
  rw [ofEntries, Option.isSome_map, List.find?_isSome]
  simp

theorem child_iff {directory path : Path} {name : Text} :
    name ∈ (if path.dropLast = directory then path.getLast? else none) ↔ path = directory ++ [name] := by
  constructor
  · intro child
    split at child
    case isTrue inside => rw [← inside, List.dropLast_append_getLast? name child]
    case isFalse => cases child
  · rintro rfl
    simp

theorem isSome_child {entries : List (Path × Node)} {directory : Path} {name : Text} :
    (ofEntries entries (directory ++ [name])).isSome = true ↔ name ∈ children entries directory := by
  rw [isSome_ofEntries, children, List.mem_filterMap]
  constructor
  · intro member
    exact ⟨_, member, child_iff.mpr rfl⟩
  · rintro ⟨path, member, child⟩
    exact child_iff.mp child ▸ member

theorem lists_namesIn {entries : List (Path × Node)} (distinct : (entries.map Prod.fst).Nodup) (directory : Path) :
    Lists (ofEntries entries) directory (namesIn entries directory) where
  distinct := by
    apply List.Nodup.filter
    apply distinct.filterMap
    intro first second name fromFirst fromSecond
    rw [child_iff.mp fromFirst, child_iff.mp fromSecond]
  complete name := by
    rw [isSome_child, namesIn, List.mem_filter, Bool.not_eq_true', and_comm]

end BotBrew.FileSystem
