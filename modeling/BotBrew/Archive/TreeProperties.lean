import BotBrew.Archive.Mkbootfs
import Mathlib.Data.List.Nodup
import Mathlib.Data.List.Perm.Basic

/-! What can be seen of a directory tree, and that the walk depends on nothing else. -/

set_option autoImplicit false

namespace BotBrew.Archive.Mkbootfs

open Words

/-! ## What can be seen of a tree -/

/-- A file by itself: its permissions do not matter -/
inductive Node where
  | regular (content : List Byte)
  | directory
  | closed
  | link (target : List Byte)
  | trouble (why : Trouble)

def Tree.node : Tree → Node
  | .regular _ content => .regular content
  | .directory _ _ => .directory
  | .closed _ => .closed
  | .link _ target => .link target
  | .trouble why => .trouble why

/-- The files below a directory by the names that lead to them, where none of these is hidden -/
inductive Forest.Shows : Forest → List CString → Tree → Prop where
  | here {name : CString} {tree : Tree} {rest : Forest} (shown : kept name = true) : Shows (.cons name tree rest) [name] tree
  | inside {name : CString} {permissions : BitVec 12} {children rest : Forest} {names : List CString} {tree : Tree}
      (shown : kept name = true) (shows_below : children.Shows names tree) :
      Shows (.cons name (.directory permissions children) rest) (name :: names) tree
  | later {name : CString} {first : Tree} {rest : Forest} {names : List CString} {tree : Tree}
      (shows_rest : rest.Shows names tree) : Shows (.cons name first rest) names tree

def Forest.toList : Forest → List (CString × Tree)
  | .nil => []
  | .cons name tree rest => (name, tree) :: rest.toList

mutual
/-- No directory has two entries with one name. -/
def Tree.Proper : Tree → Prop
  | .directory _ children => (children.toList.map Prod.fst).Nodup ∧ children.Proper
  | _ => True

def Forest.Proper : Forest → Prop
  | .nil => True
  | .cons _ tree rest => tree.Proper ∧ rest.Proper
end

variable {path : List Byte} {out : CString} {forest other : Forest} {names : List CString} {tree : Tree}
  {mode : Word} {place : CString} {data : List Byte}

theorem mem_inOrder {event : Event} {list : List (CString × List Event)} :
    event ∈ inOrder list ↔ ∃ entry ∈ list, event ∈ entry.2 := by
  rw [inOrder, List.mem_flatMap]
  simp only [List.mem_mergeSort]

theorem mem_entries {entry : CString × List Event} : ∀ {forest : Forest},
    entry ∈ entries path out forest ↔
      ∃ named ∈ forest.toList, kept named.1 = true ∧
        entry = (named.1, _archive (path ++ [47] ++ named.1.bytes) (join out named.1) named.2)
  | .nil => by simp [entries, Forest.toList]
  | .cons name tree rest => by
    have hypothesis := @mem_entries entry rest
    rw [entries, Forest.toList]
    split
    case isTrue shown => simp [hypothesis, shown]
    case isFalse hidden => simp [hypothesis, hidden]

/-! ## The archive has what can be seen -/

/-- The file type and the data of a file that gets into the archive -/
def Node.content : Node → Option (Word × List Byte)
  | .regular content => some (S_IFREG, content)
  | .directory => some (S_IFDIR, [])
  | .closed => some (S_IFDIR, [])
  | .link target => some (S_IFLNK, target.take 1024)
  | .trouble _ => none

/-- A mask that leaves the permissions out leaves the file type. -/
theorem modeOf_mask (kind : Word) (permissions : BitVec 12) {mask : Word} (above : ∀ bit < 12, mask.getLsbD bit = false) :
    modeOf kind permissions &&& mask = kind &&& mask := by
  apply BitVec.eq_of_getLsbD_eq
  intro bit inside
  rw [modeOf, BitVec.getLsbD_and, BitVec.getLsbD_and, BitVec.getLsbD_or, BitVec.getLsbD_setWidth]
  rcases Nat.lt_or_ge bit 12 with low | high
  · rw [above bit low, Bool.and_false, Bool.and_false]
  · rw [BitVec.getLsbD_of_ge permissions bit high, Bool.and_false, Bool.or_false]

theorem S_ISDIR_modeOf (kind : Word) (permissions : BitVec 12) : S_ISDIR (modeOf kind permissions) = S_ISDIR kind := by
  rw [S_ISDIR, S_ISDIR, modeOf_mask kind permissions (by decide)]

/-- The permissions in the archive come from the path. -/
theorem fix_stat_modeOf (path : List Byte) (kind : Word) (permissions : BitVec 12) :
    fix_stat path (modeOf kind permissions) = fix_stat path kind := by
  rw [fix_stat, fix_stat, fs_config, fs_config, S_ISDIR_modeOf, modeOf_mask kind permissions (by decide)]

/-- An event with the mode that is written -/
def Event.fixed : Event → Event
  | .eject mode out data => .eject (fix_stat out.bytes mode) out data
  | .die why => .die why

/-- What is done for a file by itself -/
def Tree.own (path : List Byte) (out : CString) : Tree → List Event
  | .regular permissions content => [.eject (modeOf S_IFREG permissions) out content]
  | .directory permissions _ => [.eject (modeOf S_IFDIR permissions) out []]
  | .closed permissions => [.eject (modeOf S_IFDIR permissions) out [], .die (cannotOpen path)]
  | .link permissions target => [.eject (modeOf S_IFLNK permissions) out (target.take 1024)]
  | .trouble why => [.die (why.why path)]

def step (path : List Byte) (name : CString) : List Byte := path ++ [47] ++ name.bytes

theorem own_subset (path : List Byte) (out : CString) (tree : Tree) : tree.own path out ⊆ _archive path out tree := by
  cases tree with
  | directory permissions children =>
    rw [_archive, Tree.own]
    exact List.cons_subset_cons _ (List.nil_subset _)
  | _ =>
    rw [_archive, Tree.own]
    exact List.Subset.refl _

theorem Forest.Shows.mem_inOrder {event : Event} (shows : forest.Shows names tree) :
    ∀ {path : List Byte} {out : CString}, event ∈ tree.own (names.foldl step path) (names.foldl join out) →
      event ∈ inOrder (entries path out forest) := by
  induction shows with
  | @here name tree rest shown =>
    intro path out own
    exact Mkbootfs.mem_inOrder.mpr ⟨_, mem_entries.mpr ⟨(name, tree), List.mem_cons_self, shown, rfl⟩, own_subset _ _ _ own⟩
  | @inside name permissions children rest names tree shown _ hypothesis =>
    intro path out own
    refine Mkbootfs.mem_inOrder.mpr ⟨_, mem_entries.mpr ⟨(name, .directory permissions children), List.mem_cons_self, shown,
      rfl⟩, ?_⟩
    rw [_archive]
    exact List.mem_cons_of_mem _ (hypothesis own)
  | @later name first rest names tree _ hypothesis =>
    intro path out own
    obtain ⟨entry, found, inside⟩ := Mkbootfs.mem_inOrder.mp (hypothesis own)
    obtain ⟨named, listed, shown, same⟩ := mem_entries.mp found
    exact Mkbootfs.mem_inOrder.mpr ⟨entry, mem_entries.mpr ⟨named, List.mem_cons_of_mem _ listed, shown, same⟩, inside⟩

theorem Forest.shows_listed {named : CString × Tree} (shown : kept named.1 = true) :
    ∀ {forest : Forest}, named ∈ forest.toList → forest.Shows [named.1] named.2
  | .nil, listed => absurd listed List.not_mem_nil
  | .cons name tree rest, listed => by
    rcases List.mem_cons.mp listed with rfl | later
    · exact .here shown
    · exact .later (shows_listed shown later)

theorem Forest.shows_inside {name : CString} {permissions : BitVec 12} {children : Forest} (shown : kept name = true)
    (shows_below : children.Shows names tree) :
    ∀ {forest : Forest}, (name, Tree.directory permissions children) ∈ forest.toList → forest.Shows (name :: names) tree
  | .nil, listed => absurd listed List.not_mem_nil
  | .cons first other rest, listed => by
    rcases List.mem_cons.mp listed with same | later
    · cases same
      exact .inside shown shows_below
    · exact .later (shows_inside shown shows_below later)

/-- What is done for a tree is done for itself or for something below it. -/
inductive Tree.Does (path : List Byte) (out : CString) (event : Event) : Tree → Prop where
  | root {tree : Tree} (own : event ∈ tree.own path out) : Does path out event tree
  | inside {permissions : BitVec 12} {children : Forest} {names : List CString} {tree : Tree}
      (shows_below : children.Shows names tree) (own : event ∈ tree.own (names.foldl step path) (names.foldl join out)) :
      Does path out event (.directory permissions children)

theorem Tree.Does.shows {event : Event} {named : CString × Tree} (listed : named ∈ forest.toList)
    (shown : kept named.1 = true) (does : named.2.Does (step path named.1) (join out named.1) event) :
    ∃ names tree, forest.Shows names tree ∧ event ∈ tree.own (names.foldl step path) (names.foldl join out) := by
  obtain ⟨name, first⟩ := named
  cases does with
  | root own => exact ⟨[name], first, Forest.shows_listed shown listed, own⟩
  | inside shows_below own => exact ⟨name :: _, _, Forest.shows_inside shown shows_below listed, own⟩

mutual
theorem archive_does {event : Event} : ∀ (tree : Tree) {path : List Byte} {out : CString},
    event ∈ _archive path out tree → tree.Does path out event
  | .regular permissions content, path, out, found => by
    rw [_archive] at found
    exact .root found
  | .closed permissions, path, out, found => by
    rw [_archive] at found
    exact .root found
  | .link permissions target, path, out, found => by
    rw [_archive] at found
    exact .root found
  | .trouble why, path, out, found => by
    rw [_archive] at found
    exact .root found
  | .directory permissions children, path, out, found => by
    rw [_archive] at found
    rcases List.mem_cons.mp found with same | below
    · exact .root (List.mem_singleton.mpr same)
    · obtain ⟨entry, listed_entry, inside⟩ := mem_inOrder.mp below
      obtain ⟨named, listed, shown, same⟩ := mem_entries.mp listed_entry
      subst same
      obtain ⟨names, tree, shows_below, own⟩ := (entries_does children listed inside).shows listed shown
      exact .inside shows_below own

theorem entries_does {event : Event} : ∀ (forest : Forest) {named : CString × Tree} {path : List Byte} {out : CString},
    named ∈ forest.toList → event ∈ _archive path out named.2 → named.2.Does path out event
  | .nil, _, _, _, listed, _ => absurd listed List.not_mem_nil
  | .cons name tree rest, named, path, out, listed, found => by
    rcases List.mem_cons.mp listed with rfl | later
    · exact archive_does tree found
    · exact entries_does rest later found
end

/-- What is done for a directory is done for the files that can be seen in it. -/
theorem mem_archive_dir {event : Event} {path : List Byte} {out : CString} {forest : Forest} :
    event ∈ _archive_dir path out forest ↔
      ∃ names tree, forest.Shows names tree ∧ event ∈ tree.own (names.foldl step path) (names.foldl join out) := by
  constructor
  · intro found
    obtain ⟨entry, listed_entry, inside⟩ := mem_inOrder.mp found
    obtain ⟨named, listed, shown, same⟩ := mem_entries.mp listed_entry
    subst same
    exact (archive_does named.2 inside).shows listed shown
  · rintro ⟨names, tree, shows, own⟩
    exact shows.mem_inOrder own

theorem eject_own : .eject mode place data ∈ (tree.own path out).map Event.fixed ↔
    ∃ kind, tree.node.content = some (kind, data) ∧ place = out ∧ mode = fix_stat out.bytes kind := by
  cases tree <;>
    simp only [Tree.own, Tree.node, Node.content, List.map_cons, List.map_nil, Event.fixed, fix_stat_modeOf,
      List.mem_cons, List.not_mem_nil, or_false, Event.eject.injEq, Option.some.injEq, Prod.mk.injEq, reduceCtorEq,
      false_and, exists_false]
  all_goals
    constructor
    · rintro ⟨rfl, rfl, rfl⟩
      exact ⟨_, ⟨rfl, rfl⟩, rfl, rfl⟩
    · rintro ⟨_, ⟨rfl, rfl⟩, rfl, rfl⟩
      exact ⟨rfl, rfl, rfl⟩

/-- The files that get written for a directory -/
theorem eject_archive_dir : .eject mode place data ∈ (_archive_dir path out forest).map Event.fixed ↔
    ∃ names tree kind, forest.Shows names tree ∧ tree.node.content = some (kind, data) ∧
      place = names.foldl join out ∧ mode = fix_stat place.bytes kind := by
  constructor
  · intro found
    obtain ⟨raw, inside, same⟩ := List.mem_map.mp found
    obtain ⟨names, tree, shows, own⟩ := mem_archive_dir.mp inside
    obtain ⟨kind, content, rfl, fixed⟩ := eject_own.mp (List.mem_map.mpr ⟨raw, own, same⟩)
    exact ⟨names, tree, kind, shows, content, rfl, fixed⟩
  · rintro ⟨names, tree, kind, shows, content, rfl, fixed⟩
    obtain ⟨raw, own, same⟩ := List.mem_map.mp (eject_own.mpr ⟨kind, content, rfl, fixed⟩)
    exact List.mem_map.mpr ⟨raw, mem_archive_dir.mpr ⟨names, tree, shows, own⟩, same⟩

/-- Whether the program ends at a file -/
def Node.dies : Node → Bool
  | .closed => true
  | .trouble _ => true
  | _ => false

theorem alive_archive_dir : (∀ event ∈ _archive_dir path out forest, event.isDie = false) ↔
    ∀ names tree, forest.Shows names tree → tree.node.dies = false := by
  have own (path : List Byte) (out : CString) (tree : Tree) :
      (∀ event ∈ tree.own path out, event.isDie = false) ↔ tree.node.dies = false := by
    cases tree <;> simp [Tree.own, Event.isDie, Tree.node, Node.dies]
  constructor
  · intro alive names tree shows
    exact (own _ _ tree).mp fun event found => alive event (mem_archive_dir.mpr ⟨names, tree, shows, found⟩)
  · intro visible event found
    obtain ⟨names, tree, shows, inside⟩ := mem_archive_dir.mp found
    exact (own _ _ tree).mpr (visible names tree shows) event inside

/-! ## A directory comes before what is in it -/

/-- Every file is in `out` itself or in a directory that was written before. -/
def Ordered (out : CString) (written : List Event) : List Event → Prop
  | [] => True
  | event :: events =>
    (∀ mode place data, event = .eject mode place data → ∃ parent name, place = join parent name ∧
      (parent = out ∨ ∃ permissions, .eject (modeOf S_IFDIR permissions) parent [] ∈ written)) ∧
      Ordered out (event :: written) events

theorem Ordered.mono {written more events : List Event} (ordered : Ordered out written events) (subset : written ⊆ more) :
    Ordered out more events := by
  induction events generalizing written more with
  | nil => trivial
  | cons event events hypothesis =>
    refine ⟨fun mode place data same => ?_, hypothesis ordered.2 (List.cons_subset_cons event subset)⟩
    obtain ⟨parent, name, joined, known⟩ := ordered.1 mode place data same
    exact ⟨parent, name, joined, known.imp_right fun ⟨permissions, found⟩ => ⟨permissions, subset found⟩⟩

theorem Ordered.append {written first second : List Event} (left : Ordered out written first)
    (right : Ordered out written second) : Ordered out written (first ++ second) := by
  induction first generalizing written with
  | nil => exact right
  | cons event first hypothesis =>
    exact ⟨left.1, hypothesis left.2 (right.mono (List.subset_cons_self event written))⟩

/-- What is in order below a directory that was written is in order. -/
theorem Ordered.below {written events : List Event} {directory : CString} (ordered : Ordered directory written events)
    {permissions : BitVec 12} (known : .eject (modeOf S_IFDIR permissions) directory [] ∈ written) :
    Ordered out written events := by
  induction events generalizing written with
  | nil => trivial
  | cons event events hypothesis =>
    refine ⟨fun mode place data same => ?_, hypothesis ordered.2 (List.mem_cons_of_mem _ known)⟩
    obtain ⟨parent, name, joined, rfl | found⟩ := ordered.1 mode place data same
    · exact ⟨parent, name, joined, Or.inr ⟨permissions, known⟩⟩
    · exact ⟨parent, name, joined, Or.inr found⟩

theorem Ordered.inOrder {written : List Event} {list : List (CString × List Event)}
    (each : ∀ entry ∈ list, Ordered out written entry.2) : Ordered out written (inOrder list) := by
  have sorted : ∀ entry ∈ list.mergeSort (fun a b => notAfter a.1 b.1), Ordered out written entry.2 := fun entry found =>
    each entry (List.mem_mergeSort.mp found)
  rw [Mkbootfs.inOrder]
  generalize list.mergeSort (fun a b => notAfter a.1 b.1) = entries at sorted
  induction entries with
  | nil => trivial
  | cons entry entries hypothesis =>
    rw [List.flatMap_cons]
    exact (sorted entry List.mem_cons_self).append
      (hypothesis fun later found => sorted later (List.mem_cons_of_mem _ found))

mutual
theorem archive_ordered : ∀ (tree : Tree) {path : List Byte} {out name : CString},
    Ordered out [] (_archive path (join out name) tree)
  | .regular permissions content, path, out, name => by
    rw [_archive]
    exact ⟨fun _ _ _ same => ⟨out, name, by cases same; rfl, Or.inl rfl⟩, trivial⟩
  | .closed permissions, path, out, name => by
    rw [_archive]
    exact ⟨fun _ _ _ same => ⟨out, name, by cases same; rfl, Or.inl rfl⟩, nofun, trivial⟩
  | .link permissions target, path, out, name => by
    rw [_archive]
    exact ⟨fun _ _ _ same => ⟨out, name, by cases same; rfl, Or.inl rfl⟩, trivial⟩
  | .trouble why, path, out, name => by
    rw [_archive]
    exact ⟨nofun, trivial⟩
  | .directory permissions children, path, out, name => by
    rw [_archive]
    refine ⟨fun _ _ _ same => ⟨out, name, by cases same; rfl, Or.inl rfl⟩, ?_⟩
    have below : Ordered (join out name) [] (inOrder (entries path (join out name) children)) :=
      Ordered.inOrder (entries_ordered children)
    exact (below.mono (List.nil_subset _)).below List.mem_cons_self

theorem entries_ordered : ∀ (forest : Forest) {path : List Byte} {out : CString},
    ∀ entry ∈ entries path out forest, Ordered out [] entry.2
  | .nil, _, _, entry, found => absurd found (by rw [entries]; exact List.not_mem_nil)
  | .cons name tree rest, path, out, entry, found => by
    rw [entries] at found
    split at found
    · rcases List.mem_cons.mp found with rfl | later
      · exact archive_ordered tree
      · exact entries_ordered rest entry later
    · exact entries_ordered rest entry found
end

/-! ## Only what can be seen matters -/

/-- The same files can be seen in two directories. -/
def Forest.Same (forest other : Forest) : Prop :=
  ∀ names node, (∃ tree, forest.Shows names tree ∧ tree.node = node) ↔ ∃ tree, other.Shows names tree ∧ tree.node = node

theorem Forest.Same.symm (same : forest.Same other) : other.Same forest := fun names node => (same names node).symm

/-- The same files can be seen at and below two places. -/
structure Tree.Same (tree other : Tree) : Prop where
  node : tree.node = other.node
  children : ∀ {permissions permissions' : BitVec 12} {children children' : Forest},
    tree = .directory permissions children → other = .directory permissions' children' → children.Same children'

theorem Forest.Shows.ne_nil (shows : forest.Shows names tree) : names ≠ [] := by
  induction shows with
  | here => exact List.cons_ne_nil _ _
  | inside => exact List.cons_ne_nil _ _
  | later _ hypothesis => exact hypothesis

theorem Forest.Shows.cases_cons {name : CString} : ∀ {forest : Forest}, forest.Shows (name :: names) tree →
    kept name = true ∧ (names = [] ∧ (name, tree) ∈ forest.toList ∨
      ∃ permissions children, (name, Tree.directory permissions children) ∈ forest.toList ∧ children.Shows names tree)
  | .cons first _ rest, shows => by
    cases shows with
    | here shown => exact ⟨shown, Or.inl ⟨rfl, List.mem_cons_self⟩⟩
    | inside shown shows_below => exact ⟨shown, Or.inr ⟨_, _, List.mem_cons_self, shows_below⟩⟩
    | later shows_rest =>
      obtain ⟨shown, ⟨none, listed⟩ | ⟨permissions, children, listed, shows_below⟩⟩ := cases_cons shows_rest
      · exact ⟨shown, Or.inl ⟨none, List.mem_cons_of_mem _ listed⟩⟩
      · exact ⟨shown, Or.inr ⟨permissions, children, List.mem_cons_of_mem _ listed, shows_below⟩⟩

theorem listed_unique (distinct : (forest.toList.map Prod.fst).Nodup) {name : CString} {first second : Tree}
    (left : (name, first) ∈ forest.toList) (right : (name, second) ∈ forest.toList) : first = second :=
  congrArg Prod.snd (List.inj_on_of_nodup_map distinct left right rfl)

theorem Forest.Same.inside (same : forest.Same other) (distinct : (other.toList.map Prod.fst).Nodup) {name : CString}
    (shown : kept name = true) {permissions permissions' : BitVec 12} {children children' : Forest}
    (listed : (name, Tree.directory permissions children) ∈ forest.toList)
    (listed' : (name, Tree.directory permissions' children') ∈ other.toList) (names : List CString) (node : Node)
    (seen : ∃ tree, children.Shows names tree ∧ tree.node = node) :
    ∃ tree, children'.Shows names tree ∧ tree.node = node := by
  obtain ⟨tree, shows, is_node⟩ := seen
  obtain ⟨tree', shows', is_node'⟩ := (same _ node).mp ⟨tree, Forest.shows_inside shown shows listed, is_node⟩
  obtain ⟨_, ⟨none, _⟩ | ⟨permissions'', children'', listed'', shows''⟩⟩ := shows'.cases_cons
  · exact absurd none shows.ne_nil
  · cases listed_unique distinct listed' listed''
    exact ⟨tree', shows'', is_node'⟩

theorem Forest.Same.listed (same : forest.Same other) (distinct : (forest.toList.map Prod.fst).Nodup)
    (other_distinct : (other.toList.map Prod.fst).Nodup) {name : CString} (shown : kept name = true)
    (listed : (name, tree) ∈ forest.toList) : ∃ tree', (name, tree') ∈ other.toList ∧ tree.Same tree' := by
  obtain ⟨tree', shows', is_node⟩ := (same [name] tree.node).mp ⟨tree, Forest.shows_listed shown listed, rfl⟩
  have listed' : (name, tree') ∈ other.toList := by
    obtain ⟨_, ⟨_, listed'⟩ | ⟨_, _, _, below⟩⟩ := shows'.cases_cons
    · exact listed'
    · exact absurd rfl below.ne_nil
  refine ⟨tree', listed', is_node.symm, ?_⟩
  intro permissions permissions' children children' directory directory' names node
  subst directory directory'
  exact ⟨same.inside other_distinct shown listed listed' names node,
    same.symm.inside distinct shown listed' listed names node⟩

/-- An entry with the modes that are written -/
def fixedEntry (entry : CString × List Event) : CString × List Event := (entry.1, entry.2.map Event.fixed)

theorem inOrder_fixed (list : List (CString × List Event)) :
    (inOrder list).map Event.fixed = inOrder (list.map fixedEntry) := by
  have sorted : (list.mergeSort fun a b => notAfter a.1 b.1).map fixedEntry =
      (list.map fixedEntry).mergeSort fun a b => notAfter a.1 b.1 :=
    List.map_mergeSort fun _ _ _ _ => rfl
  rw [inOrder, inOrder, ← sorted, List.map_flatMap, List.flatMap_map]
  rfl

theorem notAfter_trans (a b c : CString) (first : notAfter a b = true) (second : notAfter b c = true) :
    notAfter a c = true :=
  decide_eq_true (le_trans (of_decide_eq_true first) (of_decide_eq_true second))

theorem notAfter_total (a b : CString) : (notAfter a b || notAfter b a) = true := by
  rw [Bool.or_eq_true]
  exact (le_total _ _).imp decide_eq_true decide_eq_true

theorem notAfter_antisymm {a b : CString} (first : notAfter a b = true) (second : notAfter b a = true) : a = b := by
  have same := le_antisymm (of_decide_eq_true first) (of_decide_eq_true second)
  cases a
  cases b
  rw [CString.mk.injEq]
  exact List.map_injective_iff.mpr (fun _ _ => BitVec.eq_of_toNat_eq) same

/-- Where the names are distinct, their order is the only one. -/
theorem inOrder_perm {list list' : List (CString × List Event)} (perm : list.Perm list')
    (distinct : (list.map Prod.fst).Nodup) : inOrder list = inOrder list' := by
  have sorted (list : List (CString × List Event)) :
      (list.mergeSort fun a b => notAfter a.1 b.1).Pairwise fun a b => notAfter a.1 b.1 = true :=
    List.pairwise_mergeSort (fun a b c => notAfter_trans a.1 b.1 c.1) (fun a b => notAfter_total a.1 b.1) list
  have same : (list.mergeSort fun a b => notAfter a.1 b.1) = list'.mergeSort fun a b => notAfter a.1 b.1 := by
    refine List.Perm.eq_of_pairwise ?_ (sorted list) (sorted list')
      ((List.mergeSort_perm _ _).trans (perm.trans (List.mergeSort_perm _ _).symm))
    intro a b left right first second
    exact List.inj_on_of_nodup_map distinct (List.mem_mergeSort.mp left)
      (perm.mem_iff.mpr (List.mem_mergeSort.mp right)) (notAfter_antisymm first second)
  rw [inOrder, inOrder, same]

theorem entries_names : ∀ (forest : Forest),
    ((entries path out forest).map Prod.fst).Sublist (forest.toList.map Prod.fst)
  | .nil => List.nil_sublist _
  | .cons name tree rest => by
    rw [entries, Forest.toList]
    split
    · exact (entries_names rest).cons_cons name
    · exact (entries_names rest).cons name

theorem entries_same (distinct : (forest.toList.map Prod.fst).Nodup) (other_distinct : (other.toList.map Prod.fst).Nodup)
    (same : forest.Same other)
    (each : ∀ {name tree tree'}, (name, tree) ∈ forest.toList → (name, tree') ∈ other.toList → Tree.Same tree tree' →
      ∀ {path out}, (_archive path out tree).map Event.fixed = (_archive path out tree').map Event.fixed) :
    (inOrder (entries path out forest)).map Event.fixed = (inOrder (entries path out other)).map Event.fixed := by
  have names (forest : Forest) (distinct : (forest.toList.map Prod.fst).Nodup) :
      (((entries path out forest).map fixedEntry).map Prod.fst).Nodup := by
    rw [List.map_map]
    exact distinct.sublist (entries_names forest)
  rw [inOrder_fixed, inOrder_fixed]
  apply inOrder_perm _ (names forest distinct)
  rw [List.perm_ext_iff_of_nodup (names forest distinct).of_map (names other other_distinct).of_map]
  intro entry
  simp only [List.mem_map, mem_entries]
  constructor
  · rintro ⟨_, ⟨⟨name, tree⟩, listed, shown, rfl⟩, rfl⟩
    obtain ⟨tree', listed', same_tree⟩ := same.listed distinct other_distinct shown listed
    refine ⟨_, ⟨(name, tree'), listed', shown, rfl⟩, ?_⟩
    exact congrArg (Prod.mk name) (each listed listed' same_tree).symm
  · rintro ⟨_, ⟨⟨name, tree'⟩, listed', shown, rfl⟩, rfl⟩
    obtain ⟨tree, listed, same_tree⟩ := same.symm.listed other_distinct distinct shown listed'
    refine ⟨_, ⟨(name, tree), listed, shown, rfl⟩, ?_⟩
    have back : Tree.Same tree tree' := ⟨same_tree.node.symm, fun left right => (same_tree.children right left).symm⟩
    exact congrArg (Prod.mk name) (each listed listed' back)

theorem Forest.Proper.listed {name : CString} : ∀ {forest : Forest}, forest.Proper → (name, tree) ∈ forest.toList →
    tree.Proper
  | .nil, _, listed => absurd listed List.not_mem_nil
  | .cons first other rest, proper, listed => by
    rw [Forest.Proper] at proper
    rcases List.mem_cons.mp listed with same | later
    · cases same
      exact proper.1
    · exact Forest.Proper.listed proper.2 later

mutual
theorem archive_same : ∀ (tree : Tree) {other : Tree}, tree.Proper → other.Proper → tree.Same other →
    ∀ {path : List Byte} {out : CString},
      (_archive path out tree).map Event.fixed = (_archive path out other).map Event.fixed
  | .directory permissions children, other, proper, other_proper, same, path, out => by
    cases other with
    | directory permissions' children' =>
      rw [Tree.Proper] at proper other_proper
      have below := @entries_same path out children children' proper.1 other_proper.1 (same.children rfl rfl)
        fun listed listed' same_tree =>
          listed_same children proper.2 listed (Forest.Proper.listed other_proper.2 listed') same_tree
      rw [_archive, _archive, List.map_cons, List.map_cons, below, Event.fixed, Event.fixed, fix_stat_modeOf,
        fix_stat_modeOf]
    | _ => cases same.node
  | .regular permissions content, other, _, _, same, path, out => by
    cases other with
    | regular permissions' content' =>
      cases same.node
      rw [_archive, _archive, List.map_singleton, List.map_singleton, Event.fixed, Event.fixed, fix_stat_modeOf,
        fix_stat_modeOf]
    | _ => cases same.node
  | .closed permissions, other, _, _, same, path, out => by
    cases other with
    | closed permissions' =>
      rw [_archive, _archive]
      simp only [List.map_cons, List.map_nil, Event.fixed, fix_stat_modeOf]
    | _ => cases same.node
  | .link permissions target, other, _, _, same, path, out => by
    cases other with
    | link permissions' target' =>
      cases same.node
      rw [_archive, _archive, List.map_singleton, List.map_singleton, Event.fixed, Event.fixed, fix_stat_modeOf,
        fix_stat_modeOf]
    | _ => cases same.node
  | .trouble why, other, _, _, same, path, out => by
    cases other with
    | trouble why' =>
      cases same.node
      rfl
    | _ => cases same.node

theorem listed_same : ∀ (forest : Forest) {name : CString} {tree other : Tree}, forest.Proper →
    (name, tree) ∈ forest.toList → other.Proper → tree.Same other →
      ∀ {path : List Byte} {out : CString},
        (_archive path out tree).map Event.fixed = (_archive path out other).map Event.fixed
  | .nil, _, _, _, _, listed, _, _, _, _ => absurd listed List.not_mem_nil
  | .cons first tree rest, name, tree', other, proper, listed, other_proper, same, path, out => by
    rw [Forest.Proper] at proper
    rcases List.mem_cons.mp listed with first_one | later
    · cases first_one
      exact archive_same tree proper.1 other_proper same
    · exact listed_same rest proper.2 later other_proper same
end

/-! ## No path is archived twice -/

mutual
/-- No name of an entry is empty, and none has a slash. -/
def Tree.Named : Tree → Prop
  | .directory _ children => children.Named
  | _ => True

def Forest.Named : Forest → Prop
  | .nil => True
  | .cons name tree rest => (name.bytes ≠ [] ∧ 47 ∉ name.bytes) ∧ tree.Named ∧ rest.Named
end

/-- A directory as `readdir` lists it -/
structure Forest.Real (forest : Forest) : Prop where
  distinct : (forest.toList.map Prod.fst).Nodup
  proper : forest.Proper
  named : forest.Named

def Event.target : Event → Option CString
  | .eject _ out _ => some out
  | .die _ => none

/-- The places at which something is archived -/
def places (events : List Event) : List CString := events.filterMap Event.target

theorem Forest.Named.listed {name : CString} : ∀ {forest : Forest}, forest.Named → (name, tree) ∈ forest.toList →
    (name.bytes ≠ [] ∧ 47 ∉ name.bytes) ∧ tree.Named
  | .nil, _, listed => absurd listed List.not_mem_nil
  | .cons first other rest, named, listed => by
    rw [Forest.Named] at named
    rcases List.mem_cons.mp listed with same | later
    · cases same
      exact ⟨named.1, named.2.1⟩
    · exact Forest.Named.listed named.2.2 later

/-- What the names in a directory are put behind -/
def front (out : CString) : List Byte := if out.bytes = [] then [] else out.bytes ++ [47]

theorem join_bytes (out name : CString) : (join out name).bytes = front out ++ name.bytes := by
  rw [join, front]
  split
  · rfl
  · rfl

theorem front_length (out : CString) : out.bytes.length ≤ (front out).length := by
  rw [front]
  split
  case isTrue empty => rw [empty]
  case isFalse => simp

theorem foldl_join_bytes : ∀ {names : List CString} {out : CString}, out.bytes ≠ [] →
    ∃ rest, (names.foldl join out).bytes = out.bytes ++ rest ∧ rest.takeWhile (· ≠ 47) = []
  | [], out, _ => ⟨[], (List.append_nil _).symm, rfl⟩
  | name :: names, out, nonempty => by
    have joined : (join out name).bytes = out.bytes ++ 47 :: name.bytes := by
      rw [join_bytes, front, if_neg nonempty, List.append_assoc]
      rfl
    have some_bytes : (join out name).bytes ≠ [] := by simp [joined]
    obtain ⟨rest, below, _⟩ := @foldl_join_bytes names _ some_bytes
    refine ⟨47 :: name.bytes ++ rest, ?_, rfl⟩
    rw [List.foldl_cons, below, joined, List.append_assoc]

theorem join_ne_nil {name : CString} (nonempty : name.bytes ≠ []) : (join out name).bytes ≠ [] := by
  rw [join_bytes]
  exact List.append_ne_nil_of_right_ne_nil _ nonempty

/-- A path below an entry of a directory shows which entry it is. -/
theorem foldl_join_entry {name name' : CString} (named : name.bytes ≠ [] ∧ 47 ∉ name.bytes)
    (named' : name'.bytes ≠ [] ∧ 47 ∉ name'.bytes) {names names' : List CString}
    (same : names.foldl join (join out name) = names'.foldl join (join out name')) : name = name' := by
  have entry {name : CString} (free : 47 ∉ name.bytes) {rest : List Byte} (below : rest.takeWhile (· ≠ 47) = []) :
      (name.bytes ++ rest).takeWhile (· ≠ 47) = name.bytes := by
    have other : ∀ byte ∈ name.bytes, decide (byte ≠ 47) = true :=
      fun byte listed => decide_eq_true fun slash => free (slash ▸ listed)
    rw [List.takeWhile_append_of_pos other, below, List.append_nil]
  have inside : (join out name).bytes ≠ [] := join_ne_nil named.1
  have inside' : (join out name').bytes ≠ [] := join_ne_nil named'.1
  obtain ⟨rest, bytes, below⟩ := @foldl_join_bytes names _ inside
  obtain ⟨rest', bytes', below'⟩ := @foldl_join_bytes names' _ inside'
  rw [join_bytes, List.append_assoc] at bytes bytes'
  have tails : name.bytes ++ rest = name'.bytes ++ rest' := by
    refine List.append_cancel_left (bytes.symm.trans ?_)
    rw [same]
    exact bytes'
  have parts : name.bytes = name'.bytes := by rw [← entry named.2 below, tails, entry named'.2 below']
  cases name
  cases name'
  exact CString.mk.injEq .. ▸ parts

theorem foldl_join_ne {name : CString} (nonempty : name.bytes ≠ []) (names : List CString) :
    names.foldl join (join out name) ≠ out := by
  intro same
  have inside : (join out name).bytes ≠ [] := join_ne_nil nonempty
  obtain ⟨rest, bytes, _⟩ := @foldl_join_bytes names _ inside
  rw [same, join_bytes] at bytes
  have longer := congrArg List.length bytes
  have some_bytes := List.length_pos_of_ne_nil nonempty
  have before := front_length out
  simp only [List.length_append] at longer
  omega

theorem own_place {event : Event} (own : event ∈ tree.own path out) (written : event.target = some place) :
    place = out := by
  cases tree <;> simp only [Tree.own, List.mem_cons, List.not_mem_nil, or_false] at own
  case closed permissions =>
    rcases own with rfl | rfl
    · exact (Option.some.inj written).symm
    · cases written
  all_goals
    subst own
    cases written
  all_goals rfl

/-- What is archived for a file is archived at its place or below it. -/
theorem places_below (found : place ∈ places (_archive path out tree)) :
    ∃ names : List CString, place = names.foldl join out := by
  obtain ⟨event, inside, written⟩ := List.mem_filterMap.mp found
  cases archive_does tree inside with
  | root own => exact ⟨[], own_place own written⟩
  | inside _ own => exact ⟨_, own_place own written⟩

theorem places_entry {name : CString} (nonempty : name.bytes ≠ [])
    (found : place ∈ places (_archive path (join out name) tree)) : place ≠ out := by
  obtain ⟨names, rfl⟩ := places_below found
  exact foldl_join_ne nonempty names

theorem inOrder_distinct (distinct : (forest.toList.map Prod.fst).Nodup) (named : forest.Named)
    (each : ∀ {name tree}, (name, tree) ∈ forest.toList → ∀ {path}, (places (_archive path (join out name) tree)).Nodup) :
    (places (inOrder (entries path out forest))).Nodup := by
  rw [places, inOrder, List.filterMap_flatMap, List.nodup_flatMap]
  constructor
  · intro entry found
    obtain ⟨⟨name, tree⟩, listed, _, rfl⟩ := mem_entries.mp (List.mem_mergeSort.mp found)
    exact each listed
  · have names : (((entries path out forest).mergeSort fun a b => notAfter a.1 b.1).map Prod.fst).Nodup :=
      ((List.mergeSort_perm _ _).map _).nodup_iff.mpr (distinct.sublist (entries_names forest))
    refine List.Pairwise.imp_of_mem ?_ (List.pairwise_map.mp names)
    intro first second found found' different
    obtain ⟨⟨name, tree⟩, listed, _, rfl⟩ := mem_entries.mp (List.mem_mergeSort.mp found)
    obtain ⟨⟨name', tree'⟩, listed', _, rfl⟩ := mem_entries.mp (List.mem_mergeSort.mp found')
    intro place written written'
    obtain ⟨names, rfl⟩ := places_below written
    obtain ⟨names', same⟩ := places_below written'
    exact different (foldl_join_entry (named.listed listed).1 (named.listed listed').1 same)

mutual
theorem archive_distinct : ∀ (tree : Tree) {path : List Byte} {out : CString}, tree.Proper → tree.Named →
    (places (_archive path out tree)).Nodup
  | .directory permissions children, path, out, proper, named => by
    rw [Tree.Proper] at proper
    rw [Tree.Named] at named
    have below : (places (inOrder (entries path out children))).Nodup :=
      inOrder_distinct proper.1 named fun listed => listed_distinct children proper.2 named listed
    have first : places (_archive path out (.directory permissions children)) =
        out :: places (inOrder (entries path out children)) := by
      rw [_archive]
      rfl
    rw [first, List.nodup_cons]
    refine ⟨fun found => ?_, below⟩
    obtain ⟨event, inside, written⟩ := List.mem_filterMap.mp found
    obtain ⟨entry, listed_entry, inside⟩ := mem_inOrder.mp inside
    obtain ⟨⟨name, tree⟩, listed, _, rfl⟩ := mem_entries.mp listed_entry
    exact places_entry (named.listed listed).1.1 (List.mem_filterMap.mpr ⟨event, inside, written⟩) rfl
  | .regular permissions content, path, out, _, _ => by
    rw [_archive]
    exact List.nodup_singleton out
  | .closed permissions, path, out, _, _ => by
    rw [_archive]
    exact List.nodup_singleton out
  | .link permissions target, path, out, _, _ => by
    rw [_archive]
    exact List.nodup_singleton out
  | .trouble why, path, out, _, _ => by
    rw [_archive]
    exact List.nodup_nil

theorem listed_distinct : ∀ (forest : Forest) {name : CString} {tree : Tree}, forest.Proper → forest.Named →
    (name, tree) ∈ forest.toList → ∀ {path : List Byte} {out : CString}, (places (_archive path out tree)).Nodup
  | .nil, _, _, _, _, listed, _, _ => absurd listed List.not_mem_nil
  | .cons first tree rest, name, tree', proper, named, listed, path, out => by
    rw [Forest.Proper] at proper
    rw [Forest.Named] at named
    rcases List.mem_cons.mp listed with first_one | later
    · cases first_one
      exact archive_distinct tree proper.1 named.2.1
    · exact listed_distinct rest proper.2 named.2.2 later
end

theorem archive_dir_distinct (real : forest.Real) : (places (_archive_dir path out forest)).Nodup :=
  inOrder_distinct real.distinct real.named fun listed => listed_distinct forest real.proper real.named listed

end BotBrew.Archive.Mkbootfs
