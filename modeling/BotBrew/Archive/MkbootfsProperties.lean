import BotBrew.Archive.Mkbootfs
import BotBrew.Archive.Newc
import Mathlib.Data.List.TakeWhile

/-! What `mkbootfs` prints is a cpio archive of what its walk comes to. -/

set_option autoImplicit false

namespace BotBrew.Archive.Mkbootfs

open Words

variable {output : Output} {events : List Event} {members : List Member}

/-! ## What is written is an archive -/

theorem Output.align_eq {size : Nat} (some_size : 0 < size) (output : Output) :
    output.align size = { output with
      stdout := output.stdout ++ fill size output.total_size
      total_size := output.total_size + (fill size output.total_size).length } := by
  induction output using Output.align.induct size with
  | case1 output open_end hypothesis =>
    rw [align, dif_pos open_end, hypothesis, fill_succ open_end.1 open_end.2, Output.putchar]
    simp only [List.append_assoc, List.singleton_append, List.length_cons]
    rw [Nat.add_assoc, Nat.add_comm 1]
  | case2 output closed =>
    have aligned : size ∣ output.total_size := by
      by_contra rest
      exact closed ⟨some_size, fun zero => rest (Nat.dvd_of_mod_eq_zero zero)⟩
    rw [align, dif_neg closed, (fill_eq_nil_iff some_size _).mpr aligned, List.append_nil]
    rfl

variable {size : Nat}

theorem Output.align_stdout (some_size : 0 < size) (output : Output) :
    (output.align size).stdout = output.stdout ++ fill size output.total_size := by
  rw [output.align_eq some_size]

theorem Output.align_total_size (some_size : 0 < size) (output : Output) :
    (output.align size).total_size = output.total_size + (fill size output.total_size).length := by
  rw [output.align_eq some_size]

theorem Output.align_next_inode (some_size : 0 < size) (output : Output) :
    (output.align size).next_inode = output.next_inode := by
  rw [output.align_eq some_size]

theorem strlen_eq (string : CString) : strlen string.bytes = string.bytes.length := by
  have plain : ∀ byte ∈ string.bytes, decide (byte ≠ 0) = true := fun byte found =>
    decide_eq_true fun zero => string.terminated (zero ▸ found)
  rw [strlen, List.takeWhile_eq_self_iff.mpr plain]

/-- The member that is written for an event -/
def member (ino mode : Word) (out : CString) (data : List Byte) : Member :=
  ⟨ino, fix_stat out.bytes mode, 0, 0, 1, 0, 0, 0, 0, 0, 0, out, data⟩

/-- What has been printed is an archive of these members, but for zeros at its end. -/
structure Output.Holds (output : Output) (members : List Member) : Prop where
  stdout : output.stdout ++ fill 4 output.total_size = members.flatMap Member.bytes
  total_size : output.total_size = output.stdout.length
  next_inode : output.next_inode = BitVec.ofNat 32 (300000 + members.length)

theorem Output.initial_holds : Output.initial.Holds [] := ⟨rfl, rfl, rfl⟩

theorem _eject_holds (holds : output.Holds members) (mode : Word) (out : CString) (data : List Byte) :
    ∃ after, _eject output mode out data = (after, true) ∧
      after.Holds (members ++ [member output.next_inode mode out data]) := by
  have named : ¬ strlen out.bytes ≠ out.bytes.length := not_not.mpr (strlen_eq out)
  have four : 0 < 4 := by decide
  obtain ⟨stdout, total_size, next_inode⟩ := holds
  have start : output.total_size + (fill 4 output.total_size).length = (members.flatMap Member.bytes).length := by
    rw [← stdout, List.length_append, total_size]
  have aligned : 4 ∣ (members.flatMap Member.bytes).length := start ▸ fill_dvd four output.total_size
  have page := fill_dvd four ((members.flatMap Member.bytes).length + (6 + 8 * 13 + out.bytes.length + 1))
  have name_end : fill 4 ((members.flatMap Member.bytes).length + (6 + 8 * 13 + out.bytes.length + 1)) =
      fill 4 (headerSize + out.bytes.length + 1) := by
    apply fill_congr
    rw [headerSize]
    omega
  simp only [_eject, if_neg named]
  refine ⟨_, rfl, ?_, ?_, ?_⟩
  · have data_end : fill 4 ((members.flatMap Member.bytes).length + (6 + 8 * 13 + out.bytes.length + 1) +
        (fill 4 (headerSize + out.bytes.length + 1)).length + data.length) = fill 4 data.length := by
      apply fill_congr
      rw [← name_end]
      omega
    simp only [Output.align_stdout four, Output.align_total_size four, Output.align_next_inode four, stdout, start,
      name_end, data_end]
    rw [List.flatMap_append, List.flatMap_singleton, Member.bytes, Member.header]
    simp only [List.append_assoc, List.cons_append, List.nil_append]
    rfl
  · have header (numbers : List Nat) : (numbers.flatMap (hex 8)).length = 8 * numbers.length := by
      rw [List.length_flatMap]
      simp [Nat.mul_comm]
    have magic_length : (ascii "070701").length = 6 := by decide
    simp only [Output.align_stdout four, Output.align_total_size four, Output.align_next_inode four, stdout, start,
      List.length_append, header, magic_length, List.length_cons, List.length_nil]
  · have count : 300000 + (members ++ [member output.next_inode mode out data]).length = 300000 + members.length + 1 := by
      rw [List.length_append, List.length_singleton, Nat.add_assoc]
    rw [Output.align_next_inode four, Output.align_next_inode four, count, BitVec.ofNat_add, ← next_inode]
    rfl

/-! ## The walk ends in an archive -/

/-- The members that events are written as -/
def membersOf (ino : Word) : List Event → List Member
  | [] => []
  | .eject mode out data :: events => member ino mode out data :: membersOf (ino + 1) events
  | .die _ :: events => membersOf ino events

theorem _eject_next_inode (output : Output) (mode : Word) (out : CString) (data : List Byte) :
    (_eject output mode out data).1.next_inode = output.next_inode + 1 := by
  have four : 0 < 4 := by decide
  simp only [_eject]
  split
  · rw [Output.align_next_inode four]
  · rw [Output.align_next_inode four, Output.align_next_inode four]

theorem run_holds (holds : output.Holds members) (events : List Event) (alive : ∀ event ∈ events, event.isDie = false) :
    ∃ after, run output events = ⟨after, none⟩ ∧ after.Holds (members ++ membersOf output.next_inode events) := by
  induction events generalizing output members with
  | nil => exact ⟨output, rfl, by rwa [membersOf, List.append_nil]⟩
  | cons event events hypothesis =>
    cases event with
    | die why => exact absurd (alive _ List.mem_cons_self) (by rw [Event.isDie]; decide)
    | eject mode out data =>
      obtain ⟨next, ejected, next_holds⟩ := _eject_holds holds mode out data
      have inode := _eject_next_inode output mode out data
      rw [ejected] at inode
      obtain ⟨after, ran, after_holds⟩ :=
        hypothesis next_holds fun later found => alive later (List.mem_cons_of_mem _ found)
      refine ⟨after, by rw [run, ejected]; exact ran, ?_⟩
      rw [membersOf, ← inode, List.append_cons]
      exact after_holds

theorem run_error {event : Event} (found : event ∈ events) (dies : event.isDie = true) (output : Output) :
    (run output events).error ≠ none := by
  induction events generalizing output with
  | nil => cases found
  | cons first events hypothesis =>
    cases first with
    | die why => exact Option.some_ne_none why
    | eject mode out data =>
      rw [run]
      split
      · cases found with
        | head => cases dies
        | tail _ later => exact hypothesis later _
      · exact Option.some_ne_none _

theorem run_alive (ran : (run output events).error = none) : ∀ event ∈ events, event.isDie = false := by
  intro event found
  by_contra dies
  exact run_error found (by simpa using dies) output ran

/-- Zeros up to a multiple of four begin the zeros up to a multiple of 256. -/
theorem fill_four (length : Nat) : ∃ count, fill 256 length = fill 4 length ++ List.replicate count 0 := by
  have shorter : (4 - length % 4) % 4 ≤ (256 - length % 256) % 256 := by omega
  refine ⟨(256 - length % 256) % 256 - (4 - length % 4) % 4, ?_⟩
  rw [fill, fill, List.replicate_append_replicate, Nat.add_sub_of_le shorter]

/-- The trailer is a member like any other one, and the archive ends on a multiple of 256. -/
theorem _eject_trailer_holds (holds : output.Holds members) :
    ∃ (after : Output) (trailer : Member) (count : Nat), _eject_trailer output = (after, true) ∧
      trailer.name.bytes = trailerName ∧ trailer.data = [] ∧ after.stdout = members.flatMap Member.bytes ++ trailer.bytes ++ List.replicate count 0 ∧
      256 ∣ after.stdout.length := by
  have whole : 0 < 256 := by decide
  obtain ⟨next, ejected, next_holds⟩ := _eject_holds holds 0 ⟨ascii "TRAILER!!!", by decide⟩ []
  obtain ⟨count, zeros⟩ := fill_four next.total_size
  refine ⟨next.align 256, member output.next_inode 0 ⟨ascii "TRAILER!!!", by decide⟩ [], count, ?_, rfl, rfl, ?_, ?_⟩
  · rw [_eject_trailer, ejected]
  · rw [Output.align_stdout whole, zeros, ← List.append_assoc, next_holds.stdout, List.flatMap_append,
      List.flatMap_singleton]
  · rw [Output.align_stdout whole, List.length_append, ← next_holds.total_size]
    exact fill_dvd whole next.total_size

variable {opendir : List Byte → Option Forest} {argv : List CString}

theorem main_holds (ended : (main opendir argv).code = 0)
    (fits : ∀ member ∈ membersOf Output.initial.next_inode (argv.flatMap (archive opendir)), member.Fits) :
    256 ∣ (main opendir argv).stdout.length ∧
      read (main opendir argv).stdout =
        some ((membersOf Output.initial.next_inode (argv.flatMap (archive opendir))).takeWhile fun member =>
          member.name.bytes ≠ trailerName) := by
  rw [main] at ended ⊢
  split_ifs at ended ⊢ with empty
  · cases ended
  · cases ran : run .initial (argv.flatMap (archive opendir)) with
    | mk output error =>
      cases error with
      | some why => rw [ran] at ended; cases ended
      | none =>
        have alive := run_alive (show (run .initial (argv.flatMap (archive opendir))).error = none by rw [ran])
        obtain ⟨after, same, holds⟩ := run_holds Output.initial_holds _ alive
        obtain rfl : output = after := by
          rw [ran] at same
          exact congrArg Outcome.output same
        obtain ⟨final, trailer, count, ejected, named, no_data, stdout, whole⟩ := _eject_trailer_holds holds
        have trailer_fits : trailer.Fits := by
          constructor
          · rw [no_data]
            decide
          · rw [named]
            decide
        have members := read_archive fits trailer_fits named (List.replicate count 0)
        dsimp only
        rw [ejected]
        dsimp only
        rw [List.nil_append] at stdout
        exact ⟨whole, by rw [stdout, members]⟩

/-- A run ends well if nothing in the directories is in its way. -/
theorem main_alive (some_directory : argv ≠ [])
    (alive : ∀ event ∈ argv.flatMap (archive opendir), event.isDie = false) : (main opendir argv).code = 0 := by
  obtain ⟨after, ran, holds⟩ := run_holds Output.initial_holds _ alive
  obtain ⟨final, _, _, ejected, _⟩ := _eject_trailer_holds holds
  rw [main, if_neg some_directory, ran]
  dsimp only
  rw [ejected]

end BotBrew.Archive.Mkbootfs
