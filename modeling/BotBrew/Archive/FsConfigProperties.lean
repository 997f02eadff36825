import BotBrew.Archive.FsConfig

/-! Which rule of the tables a path gets, and which files set an id. -/

set_option autoImplicit false

namespace BotBrew.Archive

open Words

variable {rules : List fs_path_config} {index : Nat}

/-- The place of the rule that a directory gets -/
def ruleIndex (rules : List fs_path_config) (path : List Byte) : Option Nat :=
  rules.findIdx? fun pc => pc.stops path true

theorem ruleIndex_eq_some {path : List Byte} : ruleIndex rules path = some index ↔
    ∃ _ : index < rules.length, rules[index].path <+: path ∧ ∀ pc ∈ rules.take index, ¬ pc.path <+: path := by
  simp only [ruleIndex, List.findIdx?_eq_some_iff_getElem, fs_path_config.stops, if_true, List.isPrefixOf_iff_prefix,
    List.mem_take_iff_getElem]
  refine exists_congr fun inside => and_congr_right fun _ => ⟨?_, ?_⟩
  · rintro none _ ⟨earlier, before, rfl⟩
    exact none earlier (by omega)
  · intro none earlier before
    exact none _ ⟨earlier, by omega, rfl⟩

/-- A rule is of use for a directory just if no rule before it has a path that its own path begins with. -/
theorem rule_used_iff (inside : index < rules.length) : (∃ path, ruleIndex rules path = some index) ↔
    ∀ pc ∈ rules.take index, ¬ pc.path <+: rules[index].path := by
  constructor
  · rintro ⟨path, found⟩ pc earlier shadows
    obtain ⟨_, matching, first⟩ := ruleIndex_eq_some.mp found
    exact first pc earlier (shadows.trans matching)
  · intro first
    exact ⟨rules[index].path, ruleIndex_eq_some.mpr ⟨inside, List.prefix_refl _, first⟩⟩

theorem config_eq (path : List Byte) :
    config path true = ((ruleIndex android_dirs path).bind fun index => android_dirs[index]?).getD (fallback true) := by
  simp only [config, if_true, List.find?_eq_bind_findIdx?_getElem?, ruleIndex]

/-- The directory rules that a rule before them hides -/
def shadowed : List (List Byte) := [ascii "data/app-private", ascii "data/misc/dhcp", ascii "data/media/Music"]

/-- Whether a rule before this one has a path that begins this one's -/
def hidden (rules : List fs_path_config) (index : Nat) : Bool :=
  (rules.take index).any fun earlier => earlier.path.isPrefixOf ((rules[index]?.map (·.path)).getD [])

theorem hidden_eq_false (inside : index < rules.length) : hidden rules index = false ↔
    ∀ pc ∈ rules.take index, ¬ pc.path <+: rules[index].path := by
  simp only [hidden, List.getElem?_eq_getElem inside, Option.map_some, Option.getD_some, List.any_eq_false,
    List.isPrefixOf_iff_prefix]

theorem android_dirs_hidden : ∀ index : Fin android_dirs.length,
    hidden android_dirs index = decide (android_dirs[index].path ∈ shadowed) := by decide

theorem android_dirs_paths : ∀ index other : Fin android_dirs.length,
    android_dirs[index].path = android_dirs[other].path → index = other := by decide

theorem android_dirs_ne_fallback : ∀ index : Fin android_dirs.length,
    android_dirs[index].path ≠ (fallback true).path := by decide

theorem config_eq_rule (inside : index < android_dirs.length) (path : List Byte) :
    config path true = android_dirs[index] ↔ ruleIndex android_dirs path = some index := by
  rw [config_eq]
  cases found : ruleIndex android_dirs path with
  | none =>
    simp only [Option.bind_none, Option.getD_none, reduceCtorEq, iff_false]
    exact fun same => android_dirs_ne_fallback ⟨index, inside⟩ (congrArg (·.path) same).symm
  | some other =>
    obtain ⟨there, -, -⟩ := ruleIndex_eq_some.mp found
    simp only [Option.bind_some, List.getElem?_eq_getElem there, Option.getD_some, Option.some.injEq]
    constructor
    · intro same
      exact congrArg Fin.val (android_dirs_paths ⟨other, there⟩ ⟨index, inside⟩ (congrArg (·.path) same))
    · rintro rfl
      rfl

/-- A rule for directories is of no use just if it stands below the rule for a path that its own path begins with. -/
theorem android_dirs_rule_used (index : Fin android_dirs.length) :
    (∃ path, config path true = android_dirs[index]) ↔ android_dirs[index].path ∉ shadowed := by
  have decided := android_dirs_hidden index
  simp only [Fin.getElem_fin] at decided ⊢
  simp only [config_eq_rule index.isLt]
  rw [rule_used_iff index.isLt, ← hidden_eq_false index.isLt, decided, decide_eq_false_iff_not]

/-! ## Set-id bits -/

def SETID : Word := 0o6000

/-- The files that are meant to run as somebody else -/
def setidFiles : List (List Byte) :=
  [ascii "system/bin/ping", ascii "system/bin/netcfg", ascii "system/xbin/su", ascii "system/xbin/librank",
    ascii "system/xbin/procrank", ascii "system/xbin/procmem", ascii "system/xbin/tcpdump", ascii "system/bin/pppd-ril",
    ascii "system/bin/run-as", ascii "system/bin/rebootcmd"]

theorem fs_config_mask (path : List Byte) (dir : Bool) (mode : Word) :
    (fs_config path dir mode).2.2 &&& SETID = (config path dir).mode &&& SETID := by
  have cleared : ∀ bit < 32, SETID.getLsbD bit = true → (~~~(0o7777 : Word)).getLsbD bit = false := by decide
  apply BitVec.eq_of_getLsbD_eq
  intro bit inside
  rw [fs_config, BitVec.getLsbD_and, BitVec.getLsbD_and, BitVec.getLsbD_or, BitVec.getLsbD_and]
  cases masked : SETID.getLsbD bit with
  | false => rw [Bool.and_false, Bool.and_false]
  | true => rw [cleared bit inside masked, Bool.and_false, Bool.false_or]

theorem android_dirs_setid : ∀ pc ∈ android_dirs, pc.mode &&& SETID = 0 := by decide

/-- No rule with a wildcard sets an id. -/
theorem android_files_setid : ∀ pc ∈ android_files, pc.mode &&& SETID ≠ 0 →
    pc.path ∈ setidFiles ∧ pc.path.getLast? ≠ some star := by decide

theorem setidFiles_config : ∀ path ∈ setidFiles, (config path false).mode &&& SETID ≠ 0 := by decide

/-- The mode of a path sets an id just for the files that are meant to, whatever the mode was before. -/
theorem fs_config_setid (path : List Byte) (dir : Bool) (mode : Word) :
    (fs_config path dir mode).2.2 &&& SETID ≠ 0 ↔ dir = false ∧ path ∈ setidFiles := by
  rw [fs_config_mask]
  constructor
  · intro sets
    rw [config] at sets
    cases found : (if dir then android_dirs else android_files).find? fun pc => pc.stops path dir with
    | none =>
      rw [found] at sets
      cases dir <;> exact absurd rfl sets
    | some pc =>
      rw [found, Option.getD_some] at sets
      have listed := List.mem_of_find?_eq_some found
      have stops := List.find?_some found
      cases dir with
      | true => exact absurd (android_dirs_setid pc listed) sets
      | false =>
        obtain ⟨named, whole⟩ := android_files_setid pc listed sets
        rw [fs_path_config.stops, if_neg Bool.false_ne_true, if_neg whole, beq_iff_eq] at stops
        exact ⟨rfl, stops ▸ named⟩
  · rintro ⟨rfl, named⟩
    exact setidFiles_config path named

end BotBrew.Archive
