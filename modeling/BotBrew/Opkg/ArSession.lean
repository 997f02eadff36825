import BotBrew.Opkg.ArFileProperties

/-! Calls of `open`, `seek`, `tell` and `read` in any order on a package file, and on separate
files with the bytes of its members. -/

set_option autoImplicit false

namespace BotBrew.Arfile

open Reading

/-- A call. Sections are numbered in the order in which they were opened. -/
inductive Event where
  | open (fname : Text)
  | seek (index : Nat) (offset whence : Int)
  | tell (index : Nat)
  | read (index : Nat) (size : Int)

inductive Answer where
  | opened
  | done
  | place (position : Int)
  | bytes (text : Text)
  | raised (exception : Exception)
  | running
  | unopened
  deriving DecidableEq

structure Session where
  file : ArFile
  sections : List FileSection

def Session.moved (session : Session) (position : Nat) : Session :=
  { session with file := { session.file with position := position } }

def Session.opened (session : Session) (file : ArFile) : Opened → Session × Answer
  | .section place => (⟨file, session.sections ++ [place]⟩, .opened)
  | .raised exception => (⟨file, session.sections⟩, .raised exception)
  | .running => (⟨file, session.sections⟩, .running)

def Session.step (content : Text) (session : Session) : Event → Session × Answer
  | .open fname => session.opened (session.file.open content fname).1 (session.file.open content fname).2
  | .seek index offset whence =>
    match session.sections[index]? with
    | none => (session, .unopened)
    | some place =>
      match place.seek content session.file.position offset whence with
      | .ok position => (session.moved position, .done)
      | .error exception => (session, .raised exception)
  | .tell index =>
    match session.sections[index]? with
    | none => (session, .unopened)
    | some place => (session, .place (place.tell session.file.position))
  | .read index size =>
    match session.sections[index]? with
    | none => (session, .unopened)
    | some place =>
      (session.moved (session.file.position + (place.read content session.file.position size).length),
        .bytes (place.read content session.file.position size))

def Session.answers (content : Text) : Session → List Event → List Answer
  | _, [] => []
  | session, event :: events =>
    (session.step content event).2 :: Session.answers content (session.step content event).1 events

/-! ## Separate files -/

structure OpenFile where
  content : Text
  position : Nat

def OpenFile.step (members : List Member) (files : List OpenFile) : Event → List OpenFile × Answer
  | .open fname =>
    match members.find? (·.name = fname) with
    | some member => (files ++ [⟨member.content, 0⟩], .opened)
    | none => (files, .raised (.ioError 2 ("AR member not found: ".toList ++ fname)))
  | .seek index offset whence =>
    match files[index]? with
    | none => (files, .unopened)
    | some file =>
      match Reading.seek file.content file.position offset whence with
      | some position => (files.set index { file with position := position }, .done)
      | none => (files, .raised .invalidArgument)
  | .tell index =>
    match files[index]? with
    | none => (files, .unopened)
    | some file => (files, .place file.position)
  | .read index size =>
    match files[index]? with
    | none => (files, .unopened)
    | some file =>
      (files.set index
          { file with position := file.position + (Reading.read file.content file.position size).length },
        .bytes (Reading.read file.content file.position size))

def OpenFile.answers (members : List Member) : List OpenFile → List Event → List Answer
  | _, [] => []
  | files, event :: events =>
    (OpenFile.step members files event).2 :: OpenFile.answers members (OpenFile.step members files event).1 events

/-! ## When a section is as good as a file of its own -/

/-- The file below stands where the last call on this section left it. -/
def Session.InPlace (session : Session) (place : FileSection) (file : OpenFile) : Prop :=
  session.file.position = place.offset + file.position

instance (session : Session) (place : FileSection) (file : OpenFile) : Decidable (session.InPlace place file) :=
  inferInstanceAs (Decidable (_ = _))

/-- The headers on the way to a name can be split; nothing relative to the position of another
section; no place before the section that is still a place in the file; no more bytes than the
section has left, unless it is the end of the file. -/
def Session.Careful (content : Text) (members : List Member) (session : Session) (files : List OpenFile) :
    Event → Prop
  | .open fname => ∀ member ∈ reached members fname, member.Spaced
  | .seek index offset whence =>
    ∀ place ∈ session.sections[index]?, ∀ file ∈ files[index]?, (whence = 1 → session.InPlace place file) ∧
      ∃ goal ∈ target file.content.length file.position offset whence, 0 ≤ goal ∨ place.offset + goal < 0
  | .tell index => ∀ place ∈ session.sections[index]?, ∀ file ∈ files[index]?, session.InPlace place file
  | .read index size =>
    ∀ place ∈ session.sections[index]?, ∀ file ∈ files[index]?, session.InPlace place file ∧
      (size = 0 ∨ 0 ≤ size ∧ file.position + size ≤ file.content.length ∨
        content.length ≤ place.offset + max file.position file.content.length)

instance (content : Text) (members : List Member) (session : Session) (files : List OpenFile) (event : Event) :
    Decidable (session.Careful content members files event) :=
  match event with
  | .open _ => inferInstanceAs (Decidable (∀ _ ∈ _, _))
  | .seek _ _ _ => inferInstanceAs (Decidable (∀ _ ∈ _, ∀ _ ∈ _, _))
  | .tell _ => inferInstanceAs (Decidable (∀ _ ∈ _, ∀ _ ∈ _, _))
  | .read _ _ => inferInstanceAs (Decidable (∀ _ ∈ _, ∀ _ ∈ _, _))

def Session.CarefulRun (content : Text) (members : List Member) : Session → List OpenFile → List Event → Prop
  | _, _, [] => True
  | session, files, event :: events =>
    session.Careful content members files event ∧
      Session.CarefulRun content members (session.step content event).1 (OpenFile.step members files event).1 events

def Session.decideCarefulRun (content : Text) (members : List Member) : (session : Session) →
    (files : List OpenFile) → (events : List Event) → Decidable (session.CarefulRun content members files events)
  | _, _, [] => isTrue trivial
  | session, files, event :: events =>
    have := Session.decideCarefulRun content members (session.step content event).1 (OpenFile.step members files event).1
      events
    inferInstanceAs (Decidable (session.Careful content members files event ∧ _))

instance (content : Text) (members : List Member) (session : Session) (files : List OpenFile) (events : List Event) :
    Decidable (session.CarefulRun content members files events) :=
  session.decideCarefulRun content members files events

/-- A section stands for a file with the bytes of a member. -/
def Stands (content : Text) (place : FileSection) (file : OpenFile) : Prop :=
  place.size = file.content.length ∧
    ∃ before after, content = before ++ file.content ++ after ∧ before.length = place.offset

structure Session.Agrees (content : Text) (members : List Member) (session : Session) (files : List OpenFile) :
    Prop where
  consistent : Consistent content members session.file
  same_length : session.sections.length = files.length
  stands : ∀ (index : Nat) (place : FileSection) (file : OpenFile), session.sections[index]? = some place → files[index]? = some file →
    Stands content place file

variable {content : Text} {members : List Member} {session : Session} {files : List OpenFile} {place : FileSection}
  {file : OpenFile}

theorem Session.Agrees.moved (agrees : session.Agrees content members files) (position : Nat) :
    (session.moved position).Agrees content members files where
  consistent := agrees.consistent.move position
  same_length := agrees.same_length
  stands := agrees.stands

theorem Session.Agrees.set (agrees : session.Agrees content members files) {index : Nat} (position : Nat)
    (found : files[index]? = some file) :
    session.Agrees content members (files.set index { file with position := position }) where
  consistent := agrees.consistent
  same_length := by rw [List.length_set, agrees.same_length]
  stands other place changed section_found changed_found := by
    rw [List.getElem?_set] at changed_found
    split at changed_found
    case isTrue same =>
      obtain rfl := same
      split at changed_found
      case isTrue =>
        obtain rfl := Option.some.inj changed_found
        exact agrees.stands index place file section_found found
      case isFalse => cases changed_found
    case isFalse => exact agrees.stands other place changed section_found changed_found

theorem Session.Agrees.add (agrees : session.Agrees content members files) {after : ArFile}
    (consistent : Consistent content members after) (stands : Stands content place file) :
    Session.Agrees content members ⟨after, session.sections ++ [place]⟩ (files ++ [file]) where
  consistent := consistent
  same_length := by simp [agrees.same_length]
  stands index other opened section_found file_found := by
    rw [List.getElem?_append, agrees.same_length] at section_found
    rw [List.getElem?_append] at file_found
    split at file_found
    case isTrue earlier =>
      rw [if_pos earlier] at section_found
      exact agrees.stands index other opened section_found file_found
    case isFalse later =>
      rw [if_neg later] at section_found
      obtain rfl := List.mem_singleton.mp (List.mem_of_getElem? section_found)
      obtain rfl := List.mem_singleton.mp (List.mem_of_getElem? file_found)
      exact stands

theorem Session.Agrees.unopened (agrees : session.Agrees content members files) {index : Nat}
    (missing : session.sections[index]? = none) : files[index]? = none := by
  rw [List.getElem?_eq_none_iff] at missing ⊢
  rwa [← agrees.same_length]

theorem Session.Agrees.opened (agrees : session.Agrees content members files) {index : Nat}
    (found : session.sections[index]? = some place) : ∃ file, files[index]? = some file ∧ Stands content place file := by
  cases there : files[index]? with
  | none =>
    have within := (List.getElem?_eq_some_iff.mp found).choose
    rw [List.getElem?_eq_none_iff, ← agrees.same_length] at there
    exact absurd within (Nat.not_lt.mpr there)
  | some file => exact ⟨file, rfl, agrees.stands index place file found there⟩

/-! ### One call -/

theorem Stands.seek (stands : Stands content place file) {position : Nat} {offset whence goal : Int}
    (inPlace : whence = 1 → position = place.offset + file.position)
    (found : target file.content.length file.position offset whence = some goal) :
    place.seek content position offset whence =
      if place.offset + goal < 0 then .error .invalidArgument else .ok (place.offset + goal).toNat := by
  have whole : place.seek content position offset whence =
      orInvalid (if place.offset + goal < 0 then none else some (place.offset + goal).toNat) := by
    rw [target] at found
    split at found
    case isTrue start =>
      obtain rfl := Option.some.inj found
      rw [FileSection.seek, if_pos start, Reading.seek, target, if_pos start, Option.bind_some, Int.add_comm]
    case isFalse notStart =>
      split at found
      case isTrue current =>
        obtain rfl := Option.some.inj found
        rw [FileSection.seek, if_neg notStart, if_pos current, Reading.seek, target, if_neg notStart, if_pos current,
          Option.bind_some, inPlace current, Int.natCast_add, Int.add_assoc]
      case isFalse notCurrent =>
        split at found
        case isTrue last =>
          obtain rfl := Option.some.inj found
          rw [FileSection.seek, if_neg notStart, if_neg notCurrent, if_pos last, Reading.seek, target, if_pos rfl,
            Option.bind_some, stands.1, Int.add_assoc]
        case isFalse => cases found
  rw [whole]
  split <;> rfl

theorem Stands.read (stands : Stands content place file) {position : Nat} {size : Int}
    (inPlace : position = place.offset + file.position)
    (careful : size = 0 ∨ 0 ≤ size ∧ file.position + size ≤ file.content.length ∨
      content.length ≤ place.offset + max file.position file.content.length) :
    place.read content position size = Reading.read file.content file.position size := by
  obtain ⟨_, before, after, shape, offset⟩ := stands
  rw [FileSection.read, inPlace, ← offset, shape, read_part_iff]
  rw [shape, ← offset, List.length_append, List.length_append] at careful
  omega

theorem Session.Agrees.open (agrees : session.Agrees content members files) (distinct : (members.map Member.name).Nodup)
    (fname : Text) (spaced : ∀ member ∈ reached members fname, member.Spaced) :
    (session.step content (.open fname)).2 = (OpenFile.step members files (.open fname)).2 ∧
      (session.step content (.open fname)).1.Agrees content members (OpenFile.step members files (.open fname)).1 := by
  cases found : members.find? (·.name = fname) with
  | none =>
    have others : ∀ other ∈ members, other.name ≠ fname := by simpa using List.find?_eq_none.mp found
    rw [reached_absent others] at spaced
    obtain ⟨after, result, consistent⟩ := agrees.consistent.open_absent distinct others spaced
    simp only [step, OpenFile.step, result, notFound, Session.opened, found]
    exact ⟨trivial, consistent, agrees.same_length, agrees.stands⟩
  | some member =>
    obtain rfl : member.name = fname := by simpa using List.find?_some found
    obtain ⟨after, offset, result, _, isAt, consistent⟩ :=
      agrees.consistent.open_member distinct (List.mem_of_find?_eq_some found) spaced
    simp only [step, OpenFile.step, result, Session.opened, found]
    obtain ⟨before, _, shape, place⟩ := isAt
    exact ⟨trivial, agrees.add consistent ⟨rfl, before, _, shape, place⟩⟩

theorem Session.Agrees.step (agrees : session.Agrees content members files) (distinct : (members.map Member.name).Nodup)
    (event : Event) (careful : session.Careful content members files event) :
    (session.step content event).2 = (OpenFile.step members files event).2 ∧
      (session.step content event).1.Agrees content members (OpenFile.step members files event).1 := by
  cases event with
  | «open» fname => exact agrees.open distinct fname careful
  | seek index offset whence =>
    cases found : session.sections[index]? with
    | none =>
      simp only [Session.step, OpenFile.step, found, agrees.unopened found]
      exact ⟨trivial, agrees⟩
    | some place =>
      obtain ⟨file, opened, stands⟩ := agrees.opened found
      obtain ⟨inPlace, goal, goes, inside⟩ := careful place found file opened
      have below := stands.seek inPlace goes
      have above : Reading.seek file.content file.position offset whence =
          if goal < 0 then none else some goal.toNat := by rw [Reading.seek, goes, Option.bind_some]
      obtain forward | outside := inside
      · rw [if_neg (by omega)] at below
        rw [if_neg (by omega)] at above
        simp only [Session.step, OpenFile.step, found, opened, below, above]
        exact ⟨trivial, (agrees.moved _).set _ opened⟩
      · rw [if_pos outside] at below
        rw [if_pos (by omega)] at above
        simp only [Session.step, OpenFile.step, found, opened, below, above]
        exact ⟨trivial, agrees⟩
  | tell index =>
    cases found : session.sections[index]? with
    | none =>
      simp only [Session.step, OpenFile.step, found, agrees.unopened found]
      exact ⟨trivial, agrees⟩
    | some place =>
      obtain ⟨file, opened, _⟩ := agrees.opened found
      have inPlace : session.file.position = place.offset + file.position := careful place found file opened
      have told : place.tell session.file.position = file.position := by
        rw [FileSection.tell, inPlace]
        omega
      simp only [Session.step, OpenFile.step, found, opened, told]
      exact ⟨trivial, agrees⟩
  | read index size =>
    cases found : session.sections[index]? with
    | none =>
      simp only [Session.step, OpenFile.step, found, agrees.unopened found]
      exact ⟨trivial, agrees⟩
    | some place =>
      obtain ⟨file, opened, stands⟩ := agrees.opened found
      obtain ⟨inPlace, within⟩ := careful place found file opened
      simp only [Session.step, OpenFile.step, found, opened, stands.read inPlace within]
      exact ⟨trivial, (agrees.moved _).set _ opened⟩

theorem Session.Agrees.answers (agrees : session.Agrees content members files)
    (distinct : (members.map Member.name).Nodup) (events : List Event)
    (careful : session.CarefulRun content members files events) :
    session.answers content events = OpenFile.answers members files events := by
  induction events generalizing session files with
  | nil => rfl
  | cons event events hypothesis =>
    obtain ⟨same, after⟩ := agrees.step distinct event careful.1
    rw [Session.answers, OpenFile.answers, same, hypothesis after careful.2]

/-! ## Package files -/

theorem PackageFile.distinct (package : PackageFile) : (package.members.map Member.name).Nodup := by
  rw [members, List.map_cons, List.map_cons, List.map_cons, package.binary_name, package.data_name,
    package.control_name]
  decide +kernel

def PackageFile.answers (package : PackageFile) (events : List Event) : Option (List Answer) :=
  (ArFile.init package.content).map fun file => Session.answers package.content ⟨file, []⟩ events

def PackageFile.Careful (package : PackageFile) (events : List Event) : Prop :=
  ∀ file ∈ ArFile.init package.content, Session.CarefulRun package.content package.members ⟨file, []⟩ [] events

instance (package : PackageFile) (events : List Event) : Decidable (package.Careful events) :=
  inferInstanceAs (Decidable (∀ _ ∈ _, _))

/-- In every careful run the sections of a package file are as good as separate files with the
bytes of its members. -/
theorem session_separate (package : PackageFile) (events : List Event) (careful : package.Careful events) :
    package.answers events = some (OpenFile.answers package.members [] events) := by
  obtain ⟨file, initial, consistent⟩ := init_archive package.members
  have agrees : Session.Agrees package.content package.members ⟨file, []⟩ [] :=
    ⟨consistent, rfl, fun _ _ _ found => by simp at found⟩
  rw [PackageFile.answers, PackageFile.content, initial, Option.map_some]
  exact congrArg some (agrees.answers package.distinct events (careful file initial))

def ownedBy (owner : Nat) (fits : (Opkg.decimal owner).length ≤ 6) : PackageFile where
  binary := ⟨"debian-binary".toList, 1350000000, owner, owner, 33188, "2.0\n".toList, by decide +kernel,
    by decide +kernel, fits, fits, by decide +kernel, by decide +kernel⟩
  data := ⟨"data.tar.gz".toList, 1350000000, owner, owner, 33188, "files".toList, by decide +kernel,
    by decide +kernel, fits, fits, by decide +kernel, by decide +kernel⟩
  control := ⟨"control.tar.gz".toList, 1350000000, owner, owner, 33188, "fields".toList, by decide +kernel,
    by decide +kernel, fits, fits, by decide +kernel, by decide +kernel⟩
  binary_name := rfl
  data_name := rfl
  control_name := rfl

def usual : PackageFile := ownedBy 1000 (by decide +kernel)

/-- The calls of `Package.__init__` on a package, and what else it might ask -/
def careful : List Event :=
  [.open "control.tar.gz".toList, .read 0 (-1), .open "data.tar.bz2".toList, .open "debian-binary".toList, .read 1 3,
    .tell 1, .open "data.tar.gz".toList, .seek 2 (-2) 2, .read 2 2, .seek 0 2 0, .read 0 2, .tell 0]

theorem session_separate_usual :
    usual.answers careful = some (OpenFile.answers usual.members [] careful) :=
  session_separate usual careful (by decide +kernel)

/-- A read goes on behind its section, and with six digits in an owner no member is found. -/
theorem sections_differ :
    usual.answers [.open "debian-binary".toList, .read 0 (-1)] ≠
        some (OpenFile.answers usual.members [] [.open "debian-binary".toList, .read 0 (-1)]) ∧
      (ownedBy 100000 (by decide +kernel)).answers [.open "control.tar.gz".toList] = some [.raised .index] := by
  decide +kernel

end BotBrew.Arfile
