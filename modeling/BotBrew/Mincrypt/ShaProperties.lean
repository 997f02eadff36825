import BotBrew.Hashing.Sha1
import BotBrew.Mincrypt.Sha

/-! Both versions of `sha.c` compute SHA-1, however the message is split into updates. -/

set_option autoImplicit false

namespace BotBrew.Mincrypt

open Words Hashing

def State.registers (s : State) : Sha1.Registers := ⟨s.A, s.B, s.C, s.D, s.E⟩

/-! ## The functions of a round -/

theorem choose_eq (x y z : Word) : z ^^^ (x &&& (y ^^^ z)) = Sha1.choose x y z := by
  ext bit
  simp only [Sha1.choose, BitVec.getElem_xor, BitVec.getElem_and, BitVec.getElem_not]
  cases x[bit] <;> cases y[bit] <;> cases z[bit] <;> rfl

theorem majority_eq (x y z : Word) : (x &&& y) ||| (z &&& (x ||| y)) = Sha1.majority x y z := by
  ext bit
  simp only [Sha1.majority, BitVec.getElem_xor, BitVec.getElem_and, BitVec.getElem_or]
  cases x[bit] <;> cases y[bit] <;> cases z[bit] <;> rfl

theorem Generic.rol_eq {bits : Nat} (fits : bits < 32) (word : Word) : rol bits word = word.rotateLeft bits := by
  rw [rol, BitVec.rotateLeft_def, Nat.mod_eq_of_lt fits]

theorem LittleEndian.ror27_eq (word : Word) : ror27 word = word.rotateLeft 5 := by
  rw [ror27, BitVec.rotateLeft_def, BitVec.or_comm]

theorem LittleEndian.ror2_eq (word : Word) : ror2 word = word.rotateLeft 30 := by
  rw [ror2, BitVec.rotateLeft_def, BitVec.or_comm]

theorem LittleEndian.ror31_eq (word : Word) : ror31 word = word.rotateLeft 1 := by
  rw [ror31, BitVec.rotateLeft_def, BitVec.or_comm]

/-! ## The block as the generic version works on it -/

section Generic

open Generic

/-- The words up to `t` are those of the schedule. -/
def Scheduled (buf : List Byte) (t : Nat) (W : Nat → Word) : Prop := ∀ u < t, W u = Sha1.schedule buf u

theorem Scheduled.update {buf : List Byte} {t : Nat} {W : Nat → Word} (before : Scheduled buf t W) {word : Word}
    (next : word = Sha1.schedule buf t) : Scheduled buf (t + 1) (Function.update W t word) := by
  intro u below
  obtain rfl | earlier := Nat.lt_succ_iff_lt_or_eq.mp below |>.symm
  · rw [Function.update_self, next]
  · rw [Function.update_of_ne (Nat.ne_of_lt earlier), before u earlier]

theorem schedule_late {buf : List Byte} {t : Nat} {W : Nat → Word} (before : Scheduled buf t W) (late : 16 ≤ t) :
    (W (t - 3) ^^^ W (t - 8) ^^^ W (t - 14) ^^^ W (t - 16)).rotateLeft 1 = Sha1.schedule buf t := by
  rw [Sha1.schedule, if_neg (by omega), before _ (by omega), before _ (by omega), before _ (by omega),
    before _ (by omega)]

theorem expanded_scheduled (buf : List Byte) : Scheduled buf 80 (expanded buf) := by
  -- both loops write the words in their order
  have first : ∀ count ≤ 16, Scheduled buf count ((List.range count).foldl (fun W t => Function.update W t
      (wordOf (buf.getD (4 * t) 0) (buf.getD (4 * t + 1) 0) (buf.getD (4 * t + 2) 0) (buf.getD (4 * t + 3) 0)))
      fun _ => 0) := by
    intro count
    induction count with
    | zero => intro _ u below; exact absurd below (Nat.not_lt_zero u)
    | succ count hypothesis =>
      intro fits
      rw [List.range_succ, List.foldl_append]
      exact (hypothesis (by omega)).update (by rw [Sha1.schedule, if_pos (by omega)])
  have second : ∀ (W : Nat → Word), Scheduled buf 16 W → ∀ count, Scheduled buf (16 + count)
      ((List.range' 16 count).foldl (fun W t => Function.update W t
        (rol 1 (W (t - 3) ^^^ W (t - 8) ^^^ W (t - 14) ^^^ W (t - 16)))) W) := by
    intro W start count
    induction count with
    | zero => exact start
    | succ count hypothesis =>
      rw [List.range'_1_concat, List.foldl_append]
      exact hypothesis.update (by rw [rol_eq (by decide), schedule_late hypothesis (by omega)])
  exact second _ (first 16 (Nat.le_refl 16)) 64

theorem round_eq (W : Nat → Word) (s : State) (t : Nat) :
    (Generic.round W s t).registers = Sha1.step t (W t) s.registers := by
  have sum (a e w f k : Word) : a + e + w + (f + k) = a + f + e + k + w := by ac_rfl
  rw [Generic.round, Sha1.step, State.registers, State.registers, rol_eq (by decide), rol_eq (by decide), Sha1.mix,
    Sha1.constant, choose_eq, majority_eq]
  split_ifs <;> rw [sum] <;> rfl

theorem SHA1_transform_state (ctx : SHA_CTX) :
    (SHA1_transform ctx).state.registers = Sha1.compression.compress ctx.state.registers ctx.buf := by
  have rounds : ∀ count ≤ 80, ((List.range count).foldl (Generic.round (expanded ctx.buf)) ctx.state).registers =
      Sha1.steps (Sha1.schedule ctx.buf) ctx.state.registers count := by
    intro count
    induction count with
    | zero => intro _; rfl
    | succ count hypothesis =>
      intro fits
      rw [List.range_succ, List.foldl_append, List.foldl_cons, List.foldl_nil, round_eq, hypothesis (by omega),
        expanded_scheduled ctx.buf count (by omega), Sha1.steps]
  rw [SHA1_transform, Sha1.compress_eq, ← rounds 80 (Nat.le_refl 80)]
  rfl

end Generic

/-! ## The block as the version for little endian works on it -/

namespace LittleEndian

theorem bswap_32_wordOf (b0 b1 b2 b3 : Byte) : bswap_32 (wordOf b0 b1 b2 b3) = wordOf b3 b2 b1 b0 := by
  have bytes := bytesOf_wordOf b0 b1 b2 b3
  simp only [bytesOf, List.cons.injEq, and_true, BitVec.ushiftRight_zero] at bytes
  obtain ⟨first, second, third, fourth⟩ := bytes
  rw [bswap_32, first, second, third, fourth]

theorem memory_bswap_32 (word : Word) : memory (bswap_32 word) = bytesOf word := by
  rw [memory, bswap_32, bytesOf_wordOf, bytesOf, BitVec.ushiftRight_zero]
  rfl

variable {buf : List Byte} {r : Sha1.Registers}

/-- After the steps up to `t` -/
structure After (buf : List Byte) (r : Sha1.Registers) (t : Nat) (s : Locals) : Prop where
  words : Scheduled buf t s.W
  registers : ⟨s.A, s.B, s.C, s.D, s.E⟩ = Sha1.steps (Sha1.schedule buf) r t

/-- The source of `W[t]` gives the word of the schedule. -/
def Supplies (buf : List Byte) (source : Source) (t : Nat) : Prop :=
  ∀ W, Scheduled buf t W → source W t = Sha1.schedule buf t

theorem input_supplies {t : Nat} (early : t < 16) : Supplies buf (input buf) t := by
  intro W _
  rw [input, load, bswap_32_wordOf, Sha1.schedule, if_pos early]

theorem mixed_supplies {t : Nat} (late : 16 ≤ t) : Supplies buf mixed t := by
  intro W before
  rw [mixed, ror31_eq, schedule_late before late]

/-- The function of a macro is that of step `t`. -/
def Mixes (f : Word → Word → Word → Word) (t : Nat) : Prop := ∀ x y z, f x y z = Sha1.mix t x y z + Sha1.constant t

theorem F1_mixes {t : Nat} (before : t < 20) : Mixes F1 t := by
  intro x y z
  rw [F1, choose_eq, Sha1.mix, Sha1.constant, if_pos before, if_pos before]

theorem F2_mixes {t : Nat} (from_20 : 20 ≤ t) (before : t < 40) : Mixes F2 t := by
  intro x y z
  rw [F2, Sha1.mix, Sha1.constant, if_neg (by omega), if_pos before, if_neg (by omega), if_pos before, Sha1.parity]

theorem F3_mixes {t : Nat} (from_40 : 40 ≤ t) (before : t < 60) : Mixes F3 t := by
  intro x y z
  rw [F3, majority_eq, Sha1.mix, Sha1.constant, if_neg (by omega), if_neg (by omega), if_pos before, if_neg (by omega),
    if_neg (by omega), if_pos before]

theorem F4_mixes {t : Nat} (from_60 : 60 ≤ t) : Mixes F4 t := by
  intro x y z
  rw [F4, Sha1.mix, Sha1.constant, if_neg (by omega), if_neg (by omega), if_neg (by omega), if_neg (by omega),
    if_neg (by omega), if_neg (by omega), Sha1.parity]

/-- One macro is one step, with the registers under other names. -/
theorem SHA_F_step {source : Source} {f : Word → Word → Word → Word} {W : Nat → Word} {A B C D E : Word} {t : Nat}
    (words : Scheduled buf t W) (registers : ⟨A, B, C, D, E⟩ = Sha1.steps (Sha1.schedule buf) r t)
    (supplies : Supplies buf source t) (mixes : Mixes f t) :
    Scheduled buf (t + 1) (SHA_F source f W A B C D E t).1 ∧
      ⟨(SHA_F source f W A B C D E t).2.2, A, (SHA_F source f W A B C D E t).2.1, C, D⟩ =
        Sha1.steps (Sha1.schedule buf) r (t + 1) := by
  have sum (a m e k w : Word) : e + (a + w + (m + k)) = a + m + e + k + w := by ac_rfl
  constructor
  · exact words.update (supplies W words)
  · rw [Sha1.steps, ← registers, Sha1.step, SHA_F, supplies W words, mixes, ror27_eq, ror2_eq, sum]

theorem five_after {first rest : Source} {f : Word → Word → Word → Word} {s : Locals} {t : Nat} (after : After buf r t s)
    (at_first : Supplies buf first t) (at_rest : ∀ k, t < k → k < t + 5 → Supplies buf rest k)
    (mixes : ∀ k, t ≤ k → k < t + 5 → Mixes f k) : After buf r (t + 5) (five first rest f s t) := by
  obtain ⟨words1, registers1⟩ := SHA_F_step after.words after.registers at_first (mixes t (by omega) (by omega))
  obtain ⟨words2, registers2⟩ :=
    SHA_F_step words1 registers1 (at_rest (t + 1) (by omega) (by omega)) (mixes (t + 1) (by omega) (by omega))
  obtain ⟨words3, registers3⟩ :=
    SHA_F_step words2 registers2 (at_rest (t + 2) (by omega) (by omega)) (mixes (t + 2) (by omega) (by omega))
  obtain ⟨words4, registers4⟩ :=
    SHA_F_step words3 registers3 (at_rest (t + 3) (by omega) (by omega)) (mixes (t + 3) (by omega) (by omega))
  obtain ⟨words5, registers5⟩ :=
    SHA_F_step words4 registers4 (at_rest (t + 4) (by omega) (by omega)) (mixes (t + 4) (by omega) (by omega))
  exact ⟨words5, registers5⟩

theorem loop_after {source : Source} {f : Word → Word → Word → Word} (count : Nat) {s : Locals} {t : Nat}
    (after : After buf r t s) (supplies : ∀ k, t ≤ k → k < t + 5 * count → Supplies buf source k)
    (mixes : ∀ k, t ≤ k → k < t + 5 * count → Mixes f k) :
    After buf r (t + 5 * count) ((List.range' t count 5).foldl (five source source f) s) := by
  induction count generalizing s t with
  | zero => exact after
  | succ count hypothesis =>
    have one : After buf r (t + 5) (five source source f s t) :=
      five_after after (supplies t (by omega) (by omega)) (fun k above below => supplies k (by omega) (by omega))
        fun k above below => mixes k (by omega) (by omega)
    have all := hypothesis one (fun k above below => supplies k (by omega) (by omega))
      fun k above below => mixes k (by omega) (by omega)
    rw [List.range'_succ, List.foldl_cons, show t + 5 * (count + 1) = t + 5 + 5 * count by omega]
    exact all

theorem SHA1_Transform_state (ctx : SHA_CTX) :
    (SHA1_Transform ctx).state.registers = Sha1.compression.compress ctx.state.registers ctx.buf := by
  let start : Locals := ⟨fun _ => 0, ctx.state.A, ctx.state.B, ctx.state.C, ctx.state.D, ctx.state.E⟩
  have after0 : After ctx.buf ctx.state.registers 0 start := ⟨fun u below => absurd below (Nat.not_lt_zero u), rfl⟩
  have after15 := loop_after 3 after0 (fun k _ below => input_supplies (by omega)) fun k _ below => F1_mixes (by omega)
  have after20 := five_after after15 (input_supplies (by decide)) (fun k above _ => mixed_supplies (by omega))
    fun k _ below => F1_mixes (by omega)
  have after40 := loop_after 4 after20 (fun k above _ => mixed_supplies (by omega))
    fun k above below => F2_mixes (by omega) (by omega)
  have after60 := loop_after 4 after40 (fun k above _ => mixed_supplies (by omega))
    fun k above below => F3_mixes (by omega) (by omega)
  have after80 := loop_after 4 after60 (fun k above _ => mixed_supplies (by omega))
    fun k above _ => F4_mixes (by omega)
  have registers : _ = Sha1.steps (Sha1.schedule ctx.buf) ctx.state.registers 80 := after80.registers
  rw [Sha1.compress_eq, ← registers, SHA1_Transform]
  rfl

end LittleEndian

/-! ## The buffer over any number of updates -/

/-- A transform works the buffer into the state, and does nothing else to the context but to the buffer. -/
structure Transforms (transform : SHA_CTX → SHA_CTX) : Prop where
  state : ∀ ctx, (transform ctx).state.registers = Sha1.compression.compress ctx.state.registers ctx.buf
  count : ∀ ctx, (transform ctx).count = ctx.count

theorem SHA1_transform_transforms : Transforms Generic.SHA1_transform :=
  ⟨SHA1_transform_state, Generic.SHA1_transform_count⟩

theorem SHA1_Transform_transforms : Transforms LittleEndian.SHA1_Transform :=
  ⟨LittleEndian.SHA1_Transform_state, LittleEndian.SHA1_Transform_count⟩

/-- The whole blocks of the message are in the state, and the rest of it is at the start of the buffer. -/
def Loaded (message : List Byte) (ctx : SHA_CTX) : Prop :=
  Sha1.compression.Holds Sha1.initial message ctx.state.registers (ctx.buf.take (message.length % 64))

variable {message : List Byte} {ctx : SHA_CTX} {transform : SHA_CTX → SHA_CTX}

theorem SHA_CTX.store_take {i : Nat} (inside : i < 64) (ctx : SHA_CTX) (byte : Byte) :
    (ctx.store i byte).buf.take (i + 1) = ctx.buf.take i ++ [byte] := by
  have length : i < (ctx.buf.set i byte).length := by rw [List.length_set, ctx.buf_length]; exact inside
  rw [store, List.take_succ_eq_append_getElem length, List.take_set_of_le (Nat.le_refl i), List.getElem_set_self]

@[simp] theorem SHA_CTX.fill_buf (ctx : SHA_CTX) (i : Nat) (p : List Byte) (enough : i ≤ 64 ∧ 64 - i ≤ p.length) :
    (ctx.fill i p enough).buf = ctx.buf.take i ++ p.take (64 - i) :=
  rfl

@[simp] theorem SHA_CTX.fill_state (ctx : SHA_CTX) (i : Nat) (p : List Byte) (enough : i ≤ 64 ∧ 64 - i ≤ p.length) :
    (ctx.fill i p enough).state = ctx.state :=
  rfl

theorem Loaded.store_last (loaded : Loaded message ctx) (transforms : Transforms transform) {byte : Byte}
    (last : message.length % 64 + 1 = 64) :
    Loaded (message ++ [byte]) (transform (ctx.store (message.length % 64) byte)) := by
  have inside : message.length % 64 < 64 := by omega
  have whole : (ctx.store (message.length % 64) byte).buf = ctx.buf.take (message.length % 64) ++ [byte] := by
    rw [← ctx.store_take inside, last, List.take_of_length_le (ctx.store _ byte).buf_length.le]
  have next := Compression.Holds.finish loaded (show (_ ++ [byte]).length = 64 by
    rw [List.length_append, List.length_take, ctx.buf_length, Nat.min_eq_left inside.le, List.length_singleton, last])
  have empty : (message ++ [byte]).length % 64 = 0 := by
    rw [List.length_append, List.length_singleton]
    omega
  rw [Loaded, empty, List.take_zero, transforms.state, whole]
  exact next

theorem Loaded.store_more (loaded : Loaded message ctx) {byte : Byte} (more : message.length % 64 + 1 ≠ 64) :
    Loaded (message ++ [byte]) (ctx.store (message.length % 64) byte) := by
  have inside : message.length % 64 + 1 < 64 := by omega
  have next := Compression.Holds.wait loaded (show (_ ++ [byte]).length < 64 by
    rwa [List.length_append, List.length_take, ctx.buf_length, Nat.min_eq_left (by omega), List.length_singleton])
  have length : (message ++ [byte]).length % 64 = message.length % 64 + 1 := by
    rw [List.length_append, List.length_singleton]
    omega
  rw [Loaded, length, ctx.store_take (by omega)]
  exact next

theorem Loaded.byteLoop (loaded : Loaded message ctx) (transforms : Transforms transform) (p : List Byte) :
    Loaded (message ++ p) (byteLoop transform ctx (message.length % 64) p) := by
  induction p generalizing message ctx with
  | nil => rwa [Mincrypt.byteLoop, List.append_nil]
  | cons byte p hypothesis =>
    rw [Mincrypt.byteLoop, List.append_cons]
    split
    case isTrue last =>
      have next := hypothesis (@Loaded.store_last _ _ _ loaded transforms byte last)
      rwa [show (message ++ [byte]).length % 64 = 0 by rw [List.length_append, List.length_singleton]; omega] at next
    case isFalse more =>
      have next := hypothesis (@Loaded.store_more _ _ loaded byte more)
      rwa [show (message ++ [byte]).length % 64 = message.length % 64 + 1 by
        rw [List.length_append, List.length_singleton]; omega] at next

theorem Loaded.blockLoop (loaded : Loaded message ctx) {i : Fin 64} (position : i.val = message.length % 64)
    (p : List Byte) : Loaded (message ++ p) (LittleEndian.blockLoop ctx i p) := by
  induction ctx, i, p using LittleEndian.blockLoop.induct generalizing message with
  | case1 ctx i p more hypothesis =>
    have inside := i.isLt
    rw [LittleEndian.blockLoop, dif_pos more]
    have taken : (p.take (64 - i)).length = 64 - i := by rw [List.length_take]; omega
    have empty : (message ++ p.take (64 - i)).length % 64 = 0 := by rw [List.length_append, taken]; omega
    have full : Loaded (message ++ p.take (64 - i))
        (LittleEndian.SHA1_Transform (ctx.fill i p ⟨by omega, by omega⟩)) := by
      rw [Loaded, empty, List.take_zero, SHA1_Transform_transforms.state, SHA_CTX.fill_buf, SHA_CTX.fill_state]
      rw [Loaded, ← position] at loaded
      apply loaded.finish
      rw [List.length_append, List.length_take, ctx.buf_length, taken, Nat.min_eq_left (by omega)]
      exact Nat.add_sub_of_le (by omega)
    have rest := hypothesis full empty.symm
    rwa [List.append_assoc, List.take_append_drop] at rest
  | case2 ctx i p few =>
    rw [LittleEndian.blockLoop, dif_neg few, position]
    exact loaded.byteLoop SHA1_Transform_transforms p

/-- What a context stands for: the bytes that it has been given -/
structure Represents (message : List Byte) (ctx : SHA_CTX) : Prop where
  loaded : Loaded message ctx
  count : ctx.count = BitVec.ofNat 64 message.length

theorem Represents.position (represents : Represents message ctx) : ctx.count.toNat % 64 = message.length % 64 := by
  rw [represents.count, BitVec.toNat_ofNat]
  omega

theorem Represents.counted (represents : Represents message ctx) (data : List Byte) :
    ctx.count + BitVec.ofNat 64 data.length = BitVec.ofNat 64 (message ++ data).length := by
  rw [represents.count, List.length_append, BitVec.ofNat_add]

theorem SHA_init_represents (ctx : SHA_CTX) : Represents [] (SHA_init ctx) :=
  ⟨Compression.holds_nil _, rfl⟩

/-- A version whose updates append to the message, and that writes the words of the digest with the highest byte first -/
structure Implementation.Correct (version : Implementation) : Prop where
  update : ∀ {message ctx}, Represents message ctx → ∀ data, Represents (message ++ data) (version.update ctx data)
  written : ∀ word, version.written word = bytesOf word

theorem generic_correct : generic.Correct where
  update {message ctx} represents data := by
    refine ⟨?_, by rw [generic.update_count, represents.counted]⟩
    have start : Loaded message (ctx.counted data.length) := represents.loaded
    have after := start.byteLoop SHA1_transform_transforms data
    rwa [← represents.position] at after
  written _ := rfl

theorem littleEndian_correct : littleEndian.Correct where
  update {message ctx} represents data := by
    refine ⟨?_, by rw [littleEndian.update_count, represents.counted]⟩
    have start : Loaded message (ctx.counted data.length) := represents.loaded
    exact start.blockLoop represents.position data
  written := LittleEndian.memory_bswap_32

variable {version : Implementation}

theorem Implementation.Correct.foldl (correct : version.Correct) (represents : Represents message ctx)
    (chunks : List (List Byte)) : Represents (message ++ chunks.flatten) (chunks.foldl version.update ctx) := by
  induction chunks generalizing message ctx with
  | nil => rwa [List.flatten_nil, List.append_nil]
  | cons data chunks hypothesis =>
    rw [List.foldl_cons, List.flatten_cons, ← List.append_assoc]
    exact hypothesis (correct.update represents data)

theorem Implementation.Correct.pad (correct : version.Correct) (represents : Represents message ctx) :
    Represents (message ++ List.replicate ((120 - message.length % 64) % 64) 0) (ctx.pad version) := by
  induction ctx using SHA_CTX.pad.induct version generalizing message with
  | case1 ctx open_block hypothesis =>
    have next := hypothesis (correct.update represents [0])
    rw [represents.position] at open_block
    have fewer : (120 - message.length % 64) % 64 = (120 - (message ++ [0]).length % 64) % 64 + 1 := by
      rw [List.length_append, List.length_singleton]
      omega
    rw [SHA_CTX.pad, if_pos (by rwa [represents.position]), fewer, List.replicate_succ, List.append_cons]
    exact next
  | case2 ctx closed =>
    rw [represents.position] at closed
    have none : (120 - message.length % 64) % 64 = 0 := by omega
    rw [SHA_CTX.pad, if_neg (by rwa [represents.position]), none, List.replicate_zero, List.append_nil]
    exact represents

theorem Implementation.Correct.close (correct : version.Correct) (represents : Represents message ctx) (bytes : Nat) :
    Represents (message ++ Sha1.lengthBytes bytes) (ctx.close version (BitVec.ofNat 64 (8 * bytes))) := by
  have after := correct.foldl represents
    ((List.range 8).map fun i => [(BitVec.ofNat 64 (8 * bytes) >>> ((7 - i) * 8)).setWidth 8])
  rwa [List.foldl_map, ← List.flatMap_def, ← List.map_eq_flatMap] at after

theorem Implementation.Correct.write (correct : version.Correct) (ctx : SHA_CTX) :
    (ctx.write version).buf.take SHA_DIGEST_SIZE = Sha1.digest ctx.state.registers := by
  have length : ([ctx.state.A, ctx.state.B, ctx.state.C, ctx.state.D, ctx.state.E].flatMap version.written).length =
      SHA_DIGEST_SIZE := by
    simp [version.written_length, SHA_DIGEST_SIZE]
  rw [SHA_CTX.write, List.take_left' length, funext correct.written]
  rfl

theorem Implementation.Correct.final (correct : version.Correct) (represents : Represents message ctx) :
    (SHA_final version ctx).buf.take SHA_DIGEST_SIZE = Sha1.sha1 message := by
  have bits : ctx.count * 8 = BitVec.ofNat 64 (8 * message.length) := by
    rw [represents.count, Nat.mul_comm, BitVec.ofNat_mul]
    rfl
  have zeros : (120 - (message ++ [0x80]).length % 64) % 64 = Sha1.zeros message.length := by
    rw [Sha1.zeros, List.length_append, List.length_singleton]
    omega
  have padded := correct.pad (correct.update represents [0x80])
  rw [zeros] at padded
  have closed := correct.close padded message.length
  have whole : message ++ [0x80] ++ List.replicate (Sha1.zeros message.length) 0 ++
      Sha1.lengthBytes message.length = Sha1.padded message := by
    rw [Sha1.padded, List.append_assoc message, List.singleton_append]
  rw [whole] at closed
  rw [SHA_final, bits, correct.write, closed.loaded.state_eq, Sha1.sha1]

theorem Implementation.Correct.stream (correct : version.Correct) (ctx : SHA_CTX) (chunks : List (List Byte)) :
    (SHA_final version (chunks.foldl version.update (SHA_init ctx))).buf.take SHA_DIGEST_SIZE =
      Sha1.sha1 chunks.flatten :=
  correct.final (correct.foldl (SHA_init_represents ctx) chunks)

/-- However a message is cut for the updates, and whichever version takes it, the digest is the SHA-1 of the message. -/
theorem SHA_final_digest (ctx : SHA_CTX) (chunks : List (List Byte)) :
    (SHA_final generic (chunks.foldl generic.update (SHA_init ctx))).buf.take SHA_DIGEST_SIZE =
        Sha1.sha1 chunks.flatten ∧
      (SHA_final littleEndian (chunks.foldl littleEndian.update (SHA_init ctx))).buf.take SHA_DIGEST_SIZE =
        Sha1.sha1 chunks.flatten :=
  ⟨generic_correct.stream ctx chunks, littleEndian_correct.stream ctx chunks⟩

end BotBrew.Mincrypt
