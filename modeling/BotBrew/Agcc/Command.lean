import BotBrew.Text.Lines

/-! `agcc.bash`: the argument loop and the command that it executes. -/

set_option autoImplicit false

namespace BotBrew.Agcc

/-- What the script takes from its name and its environment. A value that is not
quoted stands for one word here, as it does in bash where it holds no blank. -/
structure Settings where
  name : Text
  HOME : Text
  AGCC_NDK : Text
  AGCC_API : Text
  AGCC_CXC : Text
  AGCC_GCC : Text

/-- `if [ "$variable" == "" ]; then variable=default; fi` -/
def orDefault (value default : Text) : Text := if value = [] then default else value

namespace Settings

variable (env : Settings)

/-- `CMD=${0##*-}`, and `g++` or `gcc` for it -/
def CMD : Text :=
  let last := env.name.rtakeWhile (· ≠ '-')
  if last = "g++".toList ∨ last = "c++".toList then "g++".toList else "gcc".toList

def STD : Text :=
  if env.CMD = "g++".toList then "-std=gnu++0x".toList else "-std=gnu99".toList

def NDK : Text := orDefault env.AGCC_NDK (env.HOME ++ "/android-ndk".toList)

def API : Text := orDefault env.AGCC_API "8".toList

def CXC : Text := orDefault env.AGCC_CXC "arm-linux-androideabi".toList

def GCC : Text := orDefault env.AGCC_GCC "4.4.3".toList

def PLATFORM : Text :=
  env.NDK ++ "/platforms/android-".toList ++ env.API ++ "/arch-arm".toList

def TOOLCHAIN : Text := env.NDK ++ "/toolchains/".toList ++ env.CXC ++ '-' :: env.GCC

def PREBUILT : Text := env.TOOLCHAIN ++ "/prebuilt/linux-x86".toList

def LDSCRIPTS : Text := env.PREBUILT ++ '/' :: env.CXC ++ "/lib/ldscripts".toList

def STL : Text := env.NDK ++ "/sources/cxx-stl/gnu-libstdc++".toList

def INC : List Text :=
  (if env.CMD = "g++".toList then
    ["-I".toList ++ env.STL ++ "/libs/armeabi/include".toList,
      "-I".toList ++ env.STL ++ "/include".toList]
  else []) ++ ["-I".toList ++ env.PLATFORM ++ "/usr/include".toList]

def CPP : List Text :=
  ["-D__ARM_ARCH_5__", "-D__ARM_ARCH_5T__", "-D__ARM_ARCH_5E__", "-D__ARM_ARCH_5TE__",
    "-DANDROID", "-DSK_RELEASE", "-DNDEBUG", "-UDEBUG"].map String.toList

def WFLAGS : List Text :=
  ["-Wall", "-Wno-unused", "-Wno-multichar", "-Wstrict-aliasing=2"].map String.toList

def CFLAGS : List Text :=
  (["-march=armv5te", "-mtune=xscale", "-msoft-float", "-mthumb-interwork", "-fpic"] ++
    (if env.CMD = "g++".toList then ["-frtti", "-fexceptions"] else ["-fno-exceptions"]) ++
    ["-ffunction-sections", "-funwind-tables", "-fmessage-length=0"]).map String.toList

def OFLAGS : List Text :=
  ["-O2", "-finline-functions", "-finline-limit=300", "-fno-inline-functions-called-once",
    "-fgcse-after-reload", "-frerun-cse-after-loop", "-frename-registers",
    "-fomit-frame-pointer", "-fstrict-aliasing", "-funswitch-loops"].map String.toList

def LNFLAGS : List Text :=
  ["-Wl,-rpath-link=".toList ++ env.PLATFORM ++ "/usr/lib".toList,
    "-L".toList ++ env.PLATFORM ++ "/usr/lib".toList,
    "-L".toList ++ env.PREBUILT ++ "/lib/gcc/".toList ++ env.CXC ++ '/' :: env.GCC]

def LDFLAGS : List Text :=
  env.LNFLAGS ++
    ["-Bdynamic".toList, "-Wl,-T,".toList ++ env.LDSCRIPTS ++ "/armelf_linux_eabi.x".toList,
      "-Wl,-dynamic-linker,/system/bin/linker".toList, "-Wl,--gc-sections".toList,
      "-Wl,-z,nocopyreloc".toList, "-Wl,--no-undefined".toList, "-nostdlib".toList,
      env.PLATFORM ++ "/usr/lib/crtend_android.o".toList,
      env.PLATFORM ++ "/usr/lib/crtbegin_dynamic.o".toList,
      env.STL ++ "/libs/armeabi/libgnustl_static.a".toList,
      "-lc".toList, "-ldl".toList, "-lgcc".toList, "-lm".toList]

def SHFLAGS : List Text :=
  env.LNFLAGS ++
    ["-nostdlib".toList, "-Wl,-T,".toList ++ env.LDSCRIPTS ++ "/armelf_linux_eabi.xsc".toList,
      "-Wl,--gc-sections".toList, "-Wl,-shared,-Bsymbolic".toList, "-Wl,--whole-archive".toList]

def SHFLAGS_END : List Text :=
  ["-Wl,--no-whole-archive".toList,
    "-L".toList ++ env.PREBUILT ++ "/lib/gcc/".toList ++ env.CXC ++ '/' :: env.GCC,
    env.PLATFORM ++ "/usr/lib/crtend_so.o".toList, env.PLATFORM ++ "/usr/lib/crtbegin_so.o".toList,
    env.STL ++ "/libs/armeabi/libgnustl_static.a".toList,
    "-lc".toList, "-lm".toList, "-lgcc".toList]

def compiler : Text := env.PREBUILT ++ "/bin/".toList ++ env.CXC ++ '-' :: env.CMD

end Settings

inductive Mode where
  | DEFAULT
  | E
  | c
  | S
  | shared
  deriving DecidableEq

/-- `'-E'|'-c'|'-S'|'-shared'` -/
def modeFlag (arg : Text) : Option Mode :=
  if arg = "-E".toList then some .E
  else if arg = "-c".toList then some .c
  else if arg = "-S".toList then some .S
  else if arg = "-shared".toList then some .shared
  else none

def Mode.words : Mode → List Text
  | .DEFAULT => []
  | .E => ["-E".toList]
  | .c => ["-c".toList]
  | .S => ["-S".toList]
  | .shared => ["-shared".toList]

/-- `[[ "$1" =~ \.(c|cpp|cxx)$ ]]` under `nocasematch` -/
def isSource (arg : Text) : Bool :=
  [".c", ".cpp", ".cxx"].any fun suffix => suffix.toList.isSuffixOf (arg.map Char.toLower)

/-- `[[ "$1" =~ ^-std=.* ]]` under `nocasematch` -/
def isStd (arg : Text) : Bool := "-std=".toList.isPrefixOf (arg.map Char.toLower)

def isWarning (arg : Text) : Bool := "-W".toList.isPrefixOf arg

def isOptimization (arg : Text) : Bool := "-O".toList.isPrefixOf arg

def isAgcc (arg : Text) : Bool := "-agcc-".toList.isPrefixOf arg

structure Parsed where
  MODE : Mode
  OUT : Text
  WARN : Bool
  OPT : Bool
  ARGS : List Text
  SRC : Bool
  STD : Text

/-- How the script ends: it executes a command, echoes words, or exits with status 1. -/
inductive Outcome where
  | exec (command : List Text)
  | echo (words : List Text)
  | fail (message : String)
  deriving DecidableEq

/-- The last branch of the `case`. -/
def other (state : Parsed) (arg : Text) : Parsed :=
  if isWarning arg then { state with WARN := true }
  else if isOptimization arg then { state with OPT := true }
  else if isSource arg then { state with SRC := true, ARGS := state.ARGS ++ [arg] }
  else if isStd arg then { state with STD := arg, ARGS := state.ARGS ++ [arg] }
  else { state with ARGS := state.ARGS ++ [arg] }

def agccOption (env : Settings) (arg : Text) : Outcome :=
  if arg = "-agcc-cppflags".toList then .echo (Settings.CPP ++ env.INC)
  else if arg = "-agcc-cflags".toList then .echo env.CFLAGS
  else if arg = "-agcc-oflags".toList then .echo Settings.OFLAGS
  else if arg = "-agcc-wflags".toList then .echo Settings.WFLAGS
  else if arg = "-agcc-ldflags".toList then .echo env.LDFLAGS
  else if arg = "-agcc-shflags".toList then .echo (env.SHFLAGS ++ env.SHFLAGS_END)
  else .fail "invalid agcc option"

def loop (env : Settings) (state : Parsed) : List Text → Except Outcome Parsed
  | [] => .ok state
  | arg :: rest =>
      match modeFlag arg with
      | some mode => loop env { state with MODE := mode } rest
      | none =>
          if arg = "-r".toList then
            loop env { state with
              ARGS := state.ARGS ++ ["-Wl,-r".toList, "-Wl,-arch,arm".toList] } rest
          else if arg = "-o".toList then
            match rest with
            | [] => .error (.fail "-o requires an argument")
            | out :: rest =>
                if state.OUT ≠ [] then .error (.fail "duplicate -o argument")
                else loop env { state with OUT := out } rest
          else if isAgcc arg then .error (agccOption env arg)
          else loop env (other state arg) rest

def Settings.start (env : Settings) : Parsed :=
  { MODE := .DEFAULT, OUT := [], WARN := false, OPT := false, ARGS := [], SRC := false,
    STD := env.STD }

/-- Without arguments the loop runs once, for a `$1` that is empty. -/
def parse (env : Settings) (args : List Text) : Except Outcome Parsed :=
  loop env env.start (if args = [] then [[]] else args)

def NEED_CPP (state : Parsed) : Bool :=
  state.MODE != .shared || state.SRC

def NEED_COMPILE (state : Parsed) : Bool :=
  (state.MODE == .DEFAULT || state.MODE == .c || state.MODE == .S) ||
    (state.SRC && state.MODE != .E)

def NEED_LINK (state : Parsed) : Bool := state.MODE == .DEFAULT

def NEED_SHLINK (state : Parsed) : Bool := state.MODE == .shared

def group (needed : Bool) (flags : List Text) : List Text := if needed then flags else []

def front (env : Settings) (state : Parsed) : List Text :=
  [env.compiler] ++ state.MODE.words ++
    (if state.OUT = [] then [] else ["-o".toList, state.OUT]) ++
    group (NEED_COMPILE state) (env.CFLAGS ++ group state.WARN Settings.WFLAGS ++
      group state.OPT Settings.OFLAGS) ++
    group (NEED_SHLINK state) env.SHFLAGS

def back (env : Settings) (state : Parsed) : List Text :=
  group (NEED_CPP state) (env.INC ++ Settings.CPP) ++ group (NEED_LINK state) env.LDFLAGS ++
    group (NEED_SHLINK state) env.SHFLAGS_END

/-- `exec "${CMD[@]}" "$STD"` -/
def assemble (env : Settings) (state : Parsed) : List Text :=
  front env state ++ state.ARGS ++ back env state ++ [state.STD]

def agcc (env : Settings) (args : List Text) : Outcome :=
  match parse env args with
  | .ok state => .exec (assemble env state)
  | .error outcome => outcome

end BotBrew.Agcc
