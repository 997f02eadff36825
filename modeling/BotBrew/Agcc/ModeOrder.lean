import BotBrew.Agcc.PassThrough

/-! When the order of the mode flags matters to `agcc.bash`. -/

set_option autoImplicit false

namespace BotBrew.Agcc

variable {env : Settings}

def others (args : List Text) : List Word := (words args).filter fun word => !word.isMode

/-- The arguments differ only in where their mode flags stand. -/
structure SameButModes (first second : List Text) : Prop where
  others : others first = others second
  flags : (modes first).Perm (modes second)

def Mode.stage : Mode → Nat
  | .E => 0
  | .S => 1
  | .c => 2
  | .shared => 3
  | .DEFAULT => 4

/-- The mode flags can stand in any order, and the one that stops earliest is obeyed. -/
structure OrderFree (env : Settings) (args : List Text) : Prop where
  same : ∀ other, SameButModes args other → agcc env other = agcc env args
  stops : ∀ flag ∈ modes args, flag ≠ .shared →
    (∀ other ∈ modes args, flag.stage ≤ other.stage) →
      ∀ command, agcc env args = .exec command →
        ∃ compile ∈ compileGroups env, ∃ cpp ∈ cppGroups env,
          command = [env.compiler] ++ flag.words ++ outPair args ++ compile ++ passed args ++
            cpp ++ [stdOption env args]

theorem modeFlag_words {flag : Mode} (given : flag ≠ .DEFAULT) :
    ∃ text, flag.words = [text] ∧ modeFlag text = some flag := by
  cases flag with
  | DEFAULT => exact absurd rfl given
  | E => exact ⟨_, rfl, by decide⟩
  | c => exact ⟨_, rfl, by decide⟩
  | S => exact ⟨_, rfl, by decide⟩
  | shared => exact ⟨_, rfl, by decide⟩

theorem modeFlag_given {arg : Text} {flag : Mode} (found : modeFlag arg = some flag) :
    flag ≠ .DEFAULT := by
  unfold modeFlag at found
  rintro rfl
  split_ifs at found <;> cases found

def Word.args : Word → List Text
  | .mode flag => flag.words
  | .out none => ["-o".toList]
  | .out (some operand) => ["-o".toList, operand]
  | .arg text => [text]

/-- A word that the loop takes from its own arguments, whatever follows. -/
def Word.Closed : Word → Prop
  | .mode flag => flag ≠ .DEFAULT
  | .out operand => operand ≠ none
  | .arg text => modeFlag text = none ∧ text ≠ "-o".toList

theorem words_args {list : List Word} (closed : ∀ word ∈ list, word.Closed) :
    words (list.flatMap Word.args) = list := by
  induction list with
  | nil => rfl
  | cons word rest ih =>
      have first : word.Closed := closed word (by simp)
      have tail := ih fun other member => closed other (List.mem_cons_of_mem _ member)
      rw [List.flatMap_cons]
      cases word with
      | mode flag =>
          obtain ⟨text, spelled, found⟩ := modeFlag_words first
          show words (flag.words ++ _) = _
          rw [spelled, List.singleton_append, words_mode found, tail]
      | out operand =>
          cases operand with
          | none => exact absurd rfl first
          | some out =>
              exact (words_out out _).trans (congrArg (List.cons _) tail)
      | arg text => exact (words_arg first.1 first.2 _).trans (congrArg (List.cons _) tail)

theorem words_closed {args : List Text} (accepted : none ∉ outs args) :
    ∀ word ∈ words args, word.Closed := by
  unfold outs at accepted
  fun_induction words args with
  | case1 => simp
  | case2 arg rest flag found ih =>
      intro word member
      obtain rfl | member := List.mem_cons.mp member
      · exact modeFlag_given found
      · exact ih accepted word member
  | case3 found => exact absurd (by simp [Word.outOf]) accepted
  | case4 out rest found ih =>
      intro word member
      obtain rfl | member := List.mem_cons.mp member
      · simp [Word.Closed]
      · exact ih (fun inside => accepted (List.mem_cons_of_mem _ inside)) word member
  | case5 arg rest found noOut ih =>
      intro word member
      obtain rfl | member := List.mem_cons.mp member
      · exact ⟨found, noOut⟩
      · exact ih accepted word member

theorem none_not_mem {given : Text} {list : List (Option Text)} (accepted : Accepted given list) :
    none ∉ list := by
  induction list generalizing given with
  | nil => simp
  | cons operand rest ih =>
      cases operand with
      | none => exact False.elim accepted
      | some out => simpa using ih accepted.2

theorem agcc_others {args : List Text} (nonempty : args ≠ []) :
    agcc env args =
      match loopWords env env.start (others args) with
      | .ok final => .exec (assemble env { final with MODE := lastMode (modes args) })
      | .error outcome => outcome := by
  unfold agcc parse others
  rw [if_neg nonempty, loop_eq, loopWords_modes]
  cases loopWords env env.start ((words args).filter fun word => !word.isMode) <;> rfl

theorem filterMap_others {α : Type} (read : Word → Option α)
    (noMode : ∀ flag, read (.mode flag) = none) (list : List Word) :
    (list.filter fun word => !word.isMode).filterMap read = list.filterMap read := by
  induction list with
  | nil => rfl
  | cons word rest ih =>
      cases word with
      | mode flag =>
          rw [List.filterMap_cons_none (noMode flag), ← ih]
          rfl
      | out operand =>
          show List.filterMap read (.out operand :: _) = _
          simp only [List.filterMap_cons, ih]
      | arg text =>
          show List.filterMap read (.arg text :: _) = _
          simp only [List.filterMap_cons, ih]

theorem getLastD_mem {α : Type} (list : List α) (default : α) :
    list.getLastD default ∈ default :: list := by
  induction list generalizing default with
  | nil => exact List.mem_singleton.mpr rfl
  | cons head tail ih =>
      rw [List.getLastD_cons]
      exact List.mem_cons_of_mem _ (ih head)

theorem lastMode_mem {flags : List Mode} (given : flags ≠ []) : lastMode flags ∈ flags := by
  cases flags with
  | nil => exact absurd rfl given
  | cons flag rest =>
      unfold lastMode
      rw [List.getLastD_cons]
      exact getLastD_mem rest flag

theorem lastMode_perm {first second : List Mode} (perm : first.Perm second)
    (one : ∀ flag ∈ first, ∀ other ∈ first, flag = other) :
    lastMode second = lastMode first := by
  cases first with
  | nil => rw [List.nil_perm.mp perm]
  | cons flag rest =>
      have given : second ≠ [] := by
        rintro rfl
        exact absurd perm.length_eq (by simp)
      exact one _ (perm.mem_iff.mpr (lastMode_mem given)) _ (lastMode_mem (by simp))

theorem modes_others (args : List Text) :
    (others args).filterMap Word.outOf = outs args ∧
      (others args).filterMap Word.text = (words args).filterMap Word.text :=
  ⟨filterMap_others _ (fun _ => rfl) _, filterMap_others _ (fun _ => rfl) _⟩

theorem eq_nil_of_words {args : List Text} (empty : words args = []) : args = [] := by
  revert empty
  fun_cases words args with
  | case1 => exact fun _ => rfl
  | _ => exact fun empty => by cases empty

theorem SameButModes.nil {second : List Text} (same : SameButModes [] second) : second = [] := by
  apply eq_nil_of_words
  have noModes : (words second).filterMap Word.modeOf = [] :=
    (List.nil_perm.mp same.flags)
  have noOthers : (words second).filter (fun word => !word.isMode) = [] := same.others.symm
  cases shape : words second with
  | nil => rfl
  | cons word rest =>
      rw [shape] at noModes noOthers
      cases word <;> simp [Word.modeOf, Word.isMode] at noModes noOthers

theorem others_accepted {args : List Text} (plain : Plain args) :
    (∃ final, loopWords env env.start (others args) = .ok final) ↔ Accepted [] (outs args) := by
  have plainOthers : ∀ text ∈ (others args).filterMap Word.text, ¬ isAgcc text := by
    rw [(modes_others args).2]
    exact plain
  rw [← (modes_others args).1]
  exact loopWords_accepted env.start plainOthers

theorem agcc_same {first second : List Text} (same : SameButModes first second)
    (plain : Plain first)
    (given : ¬ Accepted [] (outs first) ∨
      ∀ flag ∈ modes first, ∀ other ∈ modes first, flag = other) :
    agcc env second = agcc env first := by
  by_cases nonempty : first = []
  · subst nonempty
    rw [same.nil]
  · have nonempty' : second ≠ [] := by
      rintro rfl
      exact nonempty (SameButModes.nil ⟨same.others.symm, same.flags.symm⟩)
    rw [agcc_others nonempty, agcc_others nonempty', same.others]
    obtain rejected | one := given
    · rw [← same.others]
      cases ran : loopWords env env.start (others first) with
      | ok final => exact absurd ((others_accepted plain).mp ⟨final, ran⟩) rejected
      | error outcome => rfl
    · rw [lastMode_perm same.flags one]

def flagsFirst (args : List Text) (flag : Mode) : List Text :=
  ((((modes args).erase flag ++ [flag]).map Word.mode) ++ others args).flatMap Word.args

theorem isMode_others {args : List Text} {word : Word} (member : word ∈ others args) :
    word.isMode = false := by
  simpa using (List.mem_filter.mp member).2

theorem modeOf_eq_none {word : Word} (noMode : word.isMode = false) : word.modeOf = none := by
  cases word with
  | mode flag => cases noMode
  | out operand => rfl
  | arg text => rfl

theorem words_flagsFirst {args : List Text} {flag : Mode} (accepted : none ∉ outs args)
    (given : flag ∈ modes args) :
    words (flagsFirst args flag) =
      ((modes args).erase flag ++ [flag]).map Word.mode ++ others args := by
  apply words_args
  intro word member
  have closed := words_closed accepted
  obtain member | member := List.mem_append.mp member
  · obtain ⟨other, listed, rfl⟩ := List.mem_map.mp member
    have found : other ∈ modes args := by
      obtain erased | last := List.mem_append.mp listed
      · exact List.mem_of_mem_erase erased
      · rwa [List.mem_singleton.mp last]
    obtain ⟨word, inside, read⟩ := List.mem_filterMap.mp found
    cases word with
    | mode own =>
        cases read
        exact closed _ inside
    | out operand => cases read
    | arg text => cases read
  · exact closed word (List.mem_filter.mp member).1

theorem flagsFirst_same {args : List Text} {flag : Mode} (accepted : none ∉ outs args)
    (given : flag ∈ modes args) :
    SameButModes args (flagsFirst args flag) ∧ lastMode (modes (flagsFirst args flag)) = flag := by
  have flagWords : ∀ flags : List Mode,
      (flags.map Word.mode).filterMap Word.modeOf = flags ∧
        (flags.map Word.mode).filter (fun word => !word.isMode) = [] := by
    intro flags
    induction flags with
    | nil => exact ⟨rfl, rfl⟩
    | cons flag rest ih => exact ⟨congrArg (List.cons flag) ih.1, ih.2⟩
  have noModes : (others args).filterMap Word.modeOf = [] :=
    List.filterMap_eq_nil_iff.mpr fun word member => modeOf_eq_none (isMode_others member)
  have onlyOthers : (others args).filter (fun word => !word.isMode) = others args :=
    List.filter_eq_self.mpr fun word member => by rw [isMode_others member]; rfl
  have flags : modes (flagsFirst args flag) = (modes args).erase flag ++ [flag] := by
    unfold modes
    rw [words_flagsFirst accepted given, List.filterMap_append, (flagWords _).1, noModes,
      List.append_nil]
    rfl
  constructor
  · constructor
    · rw [others.eq_def (flagsFirst args flag), words_flagsFirst accepted given,
        List.filter_append, (flagWords _).2, List.nil_append, onlyOthers]
    · rw [flags]
      exact (List.perm_cons_erase given).trans (List.perm_append_singleton flag _).symm
  · rw [flags]
    unfold lastMode
    rw [getLastD_append]
    rfl

theorem modes_given {args : List Text} (accepted : none ∉ outs args) {flag : Mode}
    (member : flag ∈ modes args) : flag ≠ .DEFAULT := by
  obtain ⟨word, inside, read⟩ := List.mem_filterMap.mp member
  cases word with
  | mode own =>
      cases read
      exact words_closed accepted _ inside
  | out operand => cases read
  | arg text => cases read

theorem Mode.words_injective {first second : Mode} (firstGiven : first ≠ .DEFAULT)
    (secondGiven : second ≠ .DEFAULT) {tail tail' : List Text}
    (same : first.words ++ tail = second.words ++ tail') : first = second := by
  obtain ⟨text, spelled, found⟩ := modeFlag_words firstGiven
  obtain ⟨text', spelled', found'⟩ := modeFlag_words secondGiven
  rw [spelled, spelled'] at same
  rw [(List.cons.inj same).1, found'] at found
  exact (Option.some.inj found).symm

theorem agcc_accepted (env : Settings) {args : List Text} (nonempty : args ≠ []) (plain : Plain args)
    (accepted : Accepted [] (outs args)) :
    agcc env args = .exec (assemble env (after env.start (words args))) := by
  unfold agcc
  rw [parse_accepted nonempty plain accepted]

theorem loopWords_error {state : Parsed} {list : List Word} {outcome : Outcome}
    (stopped : loopWords env state list = .error outcome) (command : List Text) :
    outcome ≠ .exec command := by
  induction list generalizing state with
  | nil => cases stopped
  | cons word rest ih =>
      cases word with
      | mode flag => exact ih stopped
      | out operand =>
          cases operand with
          | none =>
              cases stopped
              exact fun same => by cases same
          | some out =>
              rw [loopWords] at stopped
              split at stopped
              · cases stopped
                exact fun same => by cases same
              · exact ih stopped
      | arg text =>
          rw [loopWords] at stopped
          split_ifs at stopped
          · exact ih stopped
          · cases stopped
            unfold agccOption
            split_ifs <;> exact fun same => by cases same
          · exact ih stopped

theorem agcc_rejected {args command : List Text} (nonempty : args ≠ []) (plain : Plain args)
    (ran : agcc env args = .exec command) : Accepted [] (outs args) := by
  rw [agcc_others nonempty] at ran
  cases result : loopWords env env.start (others args) with
  | ok final => exact (others_accepted plain).mp ⟨final, result⟩
  | error outcome =>
      rw [result] at ran
      exact absurd ran (loopWords_error result command)

theorem SameButModes.plain {first second : List Text} (same : SameButModes first second)
    (plain : Plain first) : Plain second := by
  unfold Plain at plain ⊢
  rwa [← (modes_others second).2, ← same.others, (modes_others first).2]

theorem SameButModes.outs {first second : List Text} (same : SameButModes first second) :
    outs first = outs second := by
  rw [← (modes_others first).1, same.others, (modes_others second).1]

theorem agcc_flagsFirst (env : Settings) {args : List Text} (plain : Plain args)
    (accepted : Accepted [] (outs args)) {flag : Mode} (given : flag ∈ modes args) :
    ∃ tail, agcc env (flagsFirst args flag) = .exec ([env.compiler] ++ (flag.words ++ tail)) := by
  have closed := none_not_mem accepted
  obtain ⟨same, last⟩ := flagsFirst_same closed given
  have nonempty : flagsFirst args flag ≠ [] := by
    intro empty
    rw [empty] at last
    exact modes_given closed given last.symm
  have command := agcc_accepted env nonempty (same.plain plain) (same.outs ▸ accepted)
  have mode : (after env.start (words (flagsFirst args flag))).MODE = flag := last
  rw [command]
  simp only [assemble, front, mode, List.append_assoc]
  exact ⟨_, rfl⟩

theorem flags_eq {args : List Text} (plain : Plain args) (accepted : Accepted [] (outs args))
    (free : ∀ other, SameButModes args other → agcc env other = agcc env args)
    {first second : Mode} (firstGiven : first ∈ modes args) (secondGiven : second ∈ modes args) :
    first = second := by
  have closed := none_not_mem accepted
  obtain ⟨tail, ran⟩ := agcc_flagsFirst env plain accepted firstGiven
  obtain ⟨tail', ran'⟩ := agcc_flagsFirst env plain accepted secondGiven
  rw [free _ (flagsFirst_same closed firstGiven).1] at ran
  rw [free _ (flagsFirst_same closed secondGiven).1, ran] at ran'
  have same := List.append_cancel_left (Outcome.exec.inj ran')
  exact Mode.words_injective (modes_given closed firstGiven) (modes_given closed secondGiven) same

theorem agcc_orderFree (env : Settings) (args : List Text) (plain : Plain args) :
    OrderFree env args ↔
      ¬ Accepted [] (outs args) ∨
        ∀ flag ∈ modes args, ∀ other ∈ modes args, flag = other := by
  constructor
  · intro free
    by_cases accepted : Accepted [] (outs args)
    · exact Or.inr fun flag given other also => flags_eq plain accepted free.same given also
    · exact Or.inl accepted
  · intro given
    constructor
    · exact fun other same => agcc_same same plain given
    · intro flag member notShared earliest command ran
      have nonempty : args ≠ [] := by
        rintro rfl
        cases member
      have accepted := agcc_rejected nonempty plain ran
      have one := given.resolve_left (not_not.mpr accepted)
      have last : lastMode (modes args) = flag :=
        one _ (lastMode_mem (List.ne_nil_of_mem member)) _ member
      have notDefault := modes_given (none_not_mem accepted) member
      let state := after env.start (words args)
      refine ⟨_, compile_mem (NEED_COMPILE state) state.WARN state.OPT, _,
        cpp_mem (NEED_CPP state), ?_⟩
      have mode : state.MODE = flag := last
      have link : NEED_LINK state = false ∧ NEED_SHLINK state = false := by
        unfold NEED_LINK NEED_SHLINK
        rw [mode]
        simp [notDefault, notShared]
      rw [agcc_accepted env nonempty plain accepted] at ran
      rw [← Outcome.exec.inj ran, ← outPair_eq env]
      show assemble env state = _
      simp only [assemble, front, back, mode, link.1, link.2, group, List.append_assoc]
      rfl

theorem agcc_orderFree_compile :
    OrderFree host ["-c".toList, "-O2".toList, "-c".toList, "a.c".toList] :=
  (agcc_orderFree host _ (by decide)).mpr (Or.inr (by decide))

/-- `-c -shared` links, `-shared -c` compiles. -/
theorem agcc_obeys_last : ¬ OrderFree host ["-c".toList, "-shared".toList, "a.c".toList] := by
  intro free
  have same : SameButModes ["-c".toList, "-shared".toList, "a.c".toList]
      ["-shared".toList, "-c".toList, "a.c".toList] := ⟨by decide, by decide⟩
  exact absurd (free.same _ same) (by decide)

end BotBrew.Agcc
