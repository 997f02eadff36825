import BotBrew.Agcc.CommandProperties

/-! `agcc.bash` passes on what it does not know, in its order and place. -/

set_option autoImplicit false

namespace BotBrew.Agcc

variable {env : Settings}

/-- The flag groups that compile, as the script may choose them. -/
def compileGroups (env : Settings) : List (List Text) :=
  [[], env.CFLAGS, env.CFLAGS ++ Settings.WFLAGS, env.CFLAGS ++ Settings.OFLAGS,
    env.CFLAGS ++ Settings.WFLAGS ++ Settings.OFLAGS]

def cppGroups (env : Settings) : List (List Text) := [[], env.INC ++ Settings.CPP]

theorem compile_mem (needed warn opt : Bool) :
    group needed (env.CFLAGS ++ group warn Settings.WFLAGS ++ group opt Settings.OFLAGS) ∈
      compileGroups env := by
  cases needed <;> cases warn <;> cases opt <;> simp [group, compileGroups]

theorem cpp_mem (needed : Bool) :
    group needed (env.INC ++ Settings.CPP) ∈ cppGroups env := by
  cases needed <;> simp [group, cppGroups]

/-- What is executed for arguments that have at most one `-o`. -/
theorem agcc_passThrough (env : Settings) (args : List Text) (nonempty : args ≠ []) (plain : Plain args)
    (single : outs args = [] ∨ ∃ out, out ≠ [] ∧ outs args = [some out]) :
    (∃ compile ∈ compileGroups env, ∃ cpp ∈ cppGroups env,
      agcc env args = .exec ([env.compiler] ++ (lastMode (modes args)).words ++ outPair args ++
        compile ++ group (lastMode (modes args) == .shared) env.SHFLAGS ++
        passed args ++
        cpp ++ group (lastMode (modes args) == .DEFAULT) env.LDFLAGS ++
        group (lastMode (modes args) == .shared) env.SHFLAGS_END ++ [stdOption env args])) ∧
      ∀ before option operand rest, args = before ++ option :: operand :: rest →
        none ∉ outs before → option ∈ separate → PassesThrough operand →
          passed args = passed before ++ option :: operand :: passed rest := by
  constructor
  · have accepted : Accepted [] (outs args) := by
      obtain none | ⟨out, nonempty, one⟩ := single
      · rw [none]
        trivial
      · rw [one]
        exact ⟨rfl, trivial⟩
    have command : agcc env args = .exec (assemble env (after env.start (words args))) := by
      unfold agcc
      rw [parse_accepted nonempty plain accepted]
    let state := after env.start (words args)
    refine ⟨_, compile_mem (NEED_COMPILE state) state.WARN state.OPT, _,
      cpp_mem (NEED_CPP state), ?_⟩
    rw [command, ← outPair_eq env]
    simp only [assemble, front, back, List.append_assoc]
    rfl
  · intro before option operand rest whole closed listed known
    have tail : passed (option :: operand :: rest) = option :: operand :: passed rest := by
      rw [passed_passesThrough (separate_passesThrough listed), passed_passesThrough known]
    rw [whole, ← tail]
    unfold passed
    rw [words_append closed, List.flatMap_append]

/-- A device build on a host whose NDK is in `/ndk`. -/
def host : Settings :=
  { name := "agcc-gcc".toList, HOME := "/root".toList, AGCC_NDK := "/ndk".toList, AGCC_API := [],
    AGCC_CXC := [], AGCC_GCC := [] }

/-- The words of a shared library, with an option for the linker in two words -/
def libraryArgs : List Text := ["-shared", "-o", "lib.so", "-O3", "-Xlinker", "--as-needed", "a.o"].map String.toList

theorem agcc_passThrough_host :
    (∃ compile ∈ compileGroups host, ∃ cpp ∈ cppGroups host,
      agcc host libraryArgs =
        .exec ([host.compiler] ++ ["-shared".toList] ++ ["-o".toList, "lib.so".toList] ++
          compile ++ host.SHFLAGS ++ ["-Xlinker", "--as-needed", "a.o"].map String.toList ++ cpp ++ [] ++
          host.SHFLAGS_END ++ ["-std=gnu99".toList])) ∧
      passed libraryArgs = passed (libraryArgs.take 4) ++
        "-Xlinker".toList :: "--as-needed".toList :: passed ["a.o".toList] := by
  obtain ⟨command, pairs⟩ :=
    agcc_passThrough host libraryArgs (by decide) (by decide) (Or.inr ⟨"lib.so".toList, by decide, by decide⟩)
  have operand : PassesThrough "--as-needed".toList :=
    ⟨by decide, by decide, by decide, by decide, by decide⟩
  exact ⟨command, pairs _ _ _ _ rfl (by decide) (by decide) operand⟩

/-- An argument for the linker is taken for a warning option. -/
theorem agcc_loses_linkerArgument :
    ∃ command, agcc host ["a.o".toList, "-Wl,--as-needed".toList] = .exec command ∧
      "-Wl,--as-needed".toList ∉ command :=
  ⟨_, rfl, by decide⟩

end BotBrew.Agcc
