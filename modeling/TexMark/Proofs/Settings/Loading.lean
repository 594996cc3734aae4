/-
  TexMark/Proofs/Settings/Loading.lean
  ====================================
  **Options from settings.**  Loading goes through the keys of options one after the other, and
  a key sets one option and no other (`get_load`).  So what the loaded options are can be told
  option by option: each has the value that its own key gives, and the one there was if the key
  gives none (`get_loadConfig`).  Whether the key is unset or has a raw value that stands for
  none makes a difference for the warnings only (`warnings_loadConfig`).
-/
import TexMark.Settings.Load
import Mathlib.Data.List.Nodup

namespace TexMark

namespace SettingKey

/-- The option that a key sets. -/
def field? : SettingKey → Option ConfigField
  | flag field => some field
  | extraEnvironments => some .extraEnvironments
  | referenceMode => some .referenceMode
  | labelBase => some .labelBase
  | tcpPort | workers | logLevel => none

/-- The keys of options, in the order in which they are read. -/
def optionKeys : List SettingKey :=
  flagFields.map flag ++ [extraEnvironments, referenceMode, labelBase]

/-- The key of an option; the templates have none. -/
def ofField? (field : ConfigField) : Option SettingKey :=
  optionKeys.find? fun key => key.field? == some field

/-- The value that a raw one stands for. -/
def value? : SettingKey → Text → Option Json
  | flag _, raw => (truthValue? raw).map .bool
  | extraEnvironments, raw =>
    let names := ((Text.splitOn ',' raw).map Text.strip).filter fun name => !name.isEmpty
    some (.arr ((Text.sort (Text.sortedSet names)).map .str))
  | referenceMode, raw => (mode? raw).map fun mode => .str mode.name
  | labelBase, raw | tcpPort, raw | workers, raw => (Integer.read raw).toOption.map .int
  | logLevel, raw => some (.str (Text.upper raw))

/-- The warnings about a raw value that stands for none. -/
def complaints (key : SettingKey) (raw : Text) : List Text :=
  match key with
  | flag _ => [Settings.ignoring key raw ++ " (expected a boolean)"]
  | labelBase => [Settings.ignoring key raw ++ " (expected an integer)"]
  | referenceMode | workers => [Settings.ignoring key raw]
  | extraEnvironments | tcpPort | logLevel => []

theorem mem_optionKeys {key : SettingKey} : key ∈ optionKeys ↔
    (∃ field ∈ flagFields, key = flag field) ∨ key = extraEnvironments ∨ key = referenceMode ∨
      key = labelBase := by
  simp [optionKeys, eq_comm]

/-- No option has two keys. -/
theorem nodup_fields : (optionKeys.map field?).Nodup := by decide

theorem field?_injective {key other : SettingKey} {field : ConfigField} (hkey : key ∈ optionKeys)
    (hother : other ∈ optionKeys) (h : key.field? = some field) (h' : other.field? = some field) :
    key = other :=
  List.inj_on_of_nodup_map nodup_fields hkey hother (h.trans h'.symm)

theorem ofField?_eq_some_iff {key : SettingKey} {field : ConfigField} :
    ofField? field = some key ↔ key ∈ optionKeys ∧ key.field? = some field := by
  constructor
  · intro h
    exact ⟨List.mem_of_find?_eq_some h, beq_iff_eq.mp (List.find?_some h :)⟩
  · rintro ⟨hkey, hfield⟩
    cases h : ofField? field with
    | none => exact absurd (beq_iff_eq.mpr hfield) (List.find?_eq_none.mp h key hkey)
    | some other =>
      have hother : other.field? = some field := beq_iff_eq.mp (List.find?_some h :)
      rw [field?_injective (List.mem_of_find?_eq_some h) hkey hother hfield]

end SettingKey

namespace Settings

open SettingKey (flagFields optionKeys mem_optionKeys ofField?)

variable (s : Settings) (l : Loaded) {key : SettingKey}

/-- The value that a key gives, if it is set and its raw value stands for one. -/
def setting? (key : SettingKey) : Option Json := (s.get? key.name).bind key.value?

/-- The warnings that loading gives about a key. -/
def complaints (key : SettingKey) : List Text :=
  match s.get? key.name with
  | none => []
  | some raw => if (key.value? raw).isSome then [] else key.complaints raw

/-! ### One key -/

/-- Reads the key of an option. -/
def load (l : Loaded) : SettingKey → Loaded
  | .flag field => s.loadFlag l field
  | .extraEnvironments => s.loadExtras l
  | .referenceMode => s.loadMode l
  | .labelBase => s.loadBase l
  | .tcpPort | .workers | .logLevel => l

theorem loadConfig_eq (base : Config) : s.loadConfig base = optionKeys.foldl s.load ⟨base, []⟩ :=
  rfl

theorem get_withFlag (config : Config) {field : ConfigField} (hfield : field ∈ flagFields)
    (b : Bool) (f : ConfigField) : (withFlag config field b).get f =
      if some field = some f then .bool b else config.get f := by
  simp only [flagFields, List.mem_cons, List.not_mem_nil, or_false] at hfield
  rcases hfield with rfl | rfl | rfl | rfl | rfl | rfl | rfl | rfl <;> cases f <;> rfl

/-- **A key sets its own option**, if it gives a value, and no other one. -/
theorem get_load (hkey : key ∈ optionKeys) (f : ConfigField) : (s.load l key).config.get f =
    if key.field? = some f then (s.setting? key).getD (l.config.get f) else l.config.get f := by
  rcases mem_optionKeys.mp hkey with ⟨field, hfield, rfl⟩ | rfl | rfl | rfl
  · simp only [load, loadFlag, setting?]
    cases s.get? (SettingKey.flag field).name with
    | none => exact (ite_self _).symm
    | some raw =>
      cases hraw : SettingKey.truthValue? raw with
      | none => simp [SettingKey.value?, hraw]
      | some b =>
        simp only [Option.bind_some, SettingKey.value?, hraw, Option.map_some, Option.getD_some]
        exact get_withFlag l.config hfield b f
  · simp only [load, loadExtras, setting?]
    cases s.get? SettingKey.extraEnvironments.name with
    | none => exact (ite_self _).symm
    | some raw => cases f <;> rfl
  · simp only [load, loadMode, setting?]
    cases s.get? SettingKey.referenceMode.name with
    | none => exact (ite_self _).symm
    | some raw =>
      cases hraw : SettingKey.mode? raw with
      | none => simp [SettingKey.value?, hraw]
      | some mode => cases f <;> simp [SettingKey.value?, hraw, SettingKey.field?, Config.get]
  · simp only [load, loadBase, setting?]
    cases s.get? SettingKey.labelBase.name with
    | none => exact (ite_self _).symm
    | some raw =>
      cases hraw : Integer.read raw with
      | error e => simp [SettingKey.value?, hraw, Except.toOption]
      | ok n =>
        cases f <;> simp [SettingKey.value?, hraw, Except.toOption, SettingKey.field?, Config.get]

theorem warnings_load (hkey : key ∈ optionKeys) :
    (s.load l key).warnings = l.warnings ++ s.complaints key := by
  rcases mem_optionKeys.mp hkey with ⟨field, -, rfl⟩ | rfl | rfl | rfl
  · simp only [load, loadFlag, complaints]
    cases s.get? (SettingKey.flag field).name with
    | none => exact (List.append_nil _).symm
    | some raw =>
      cases hraw : SettingKey.truthValue? raw <;>
        simp [SettingKey.value?, hraw, SettingKey.complaints]
  · simp only [load, loadExtras, complaints]
    cases s.get? SettingKey.extraEnvironments.name <;> exact (List.append_nil _).symm
  · simp only [load, loadMode, complaints]
    cases s.get? SettingKey.referenceMode.name with
    | none => exact (List.append_nil _).symm
    | some raw =>
      cases hraw : SettingKey.mode? raw <;> simp [SettingKey.value?, hraw, SettingKey.complaints]
  · simp only [load, loadBase, complaints]
    cases s.get? SettingKey.labelBase.name with
    | none => exact (List.append_nil _).symm
    | some raw =>
      cases hraw : Integer.read raw <;>
        simp [SettingKey.value?, hraw, Except.toOption, SettingKey.complaints]

/-! ### All keys -/

theorem get_foldl_load {keys : List SettingKey} (hkeys : ∀ key ∈ keys, key ∈ optionKeys)
    (hnodup : (keys.map SettingKey.field?).Nodup) (f : ConfigField) :
    (keys.foldl s.load l).config.get f =
      ((keys.find? fun key => key.field? == some f).bind s.setting?).getD (l.config.get f) := by
  induction keys generalizing l with
  | nil => rfl
  | cons key keys ih =>
    obtain ⟨hnew, hrest⟩ := List.nodup_cons.mp hnodup
    obtain ⟨hkey, hkeys⟩ := List.forall_mem_cons.mp hkeys
    rw [List.foldl_cons, ih _ hkeys hrest, s.get_load l hkey]
    by_cases hfield : key.field? = some f
    · -- no later key sets the option once more
      have hlater : keys.find? (fun key => key.field? == some f) = none := by
        refine List.find?_eq_none.mpr fun other hother hsame => hnew ?_
        exact List.mem_map.mpr ⟨other, hother, (beq_iff_eq.mp hsame).trans hfield.symm⟩
      rw [hlater, List.find?_cons_of_pos (by simpa using hfield), if_pos hfield]
      rfl
    · rw [List.find?_cons_of_neg (by simpa using hfield), if_neg hfield]

theorem warnings_foldl_load {keys : List SettingKey} (hkeys : ∀ key ∈ keys, key ∈ optionKeys) :
    (keys.foldl s.load l).warnings = l.warnings ++ keys.flatMap s.complaints := by
  induction keys generalizing l with
  | nil => exact (List.append_nil _).symm
  | cons key keys ih =>
    obtain ⟨hkey, hkeys⟩ := List.forall_mem_cons.mp hkeys
    rw [List.foldl_cons, ih _ hkeys, s.warnings_load l hkey, List.append_assoc, List.flatMap_cons]

/-- **Each option is as its own key says**, and as it was if the key gives no value. -/
theorem get_loadConfig (base : Config) (f : ConfigField) :
    (s.loadConfig base).config.get f =
      ((ofField? f).bind s.setting?).getD (base.get f) := by
  rw [loadConfig_eq]
  exact s.get_foldl_load ⟨base, []⟩ (fun _ hkey => hkey) SettingKey.nodup_fields f

theorem warnings_loadConfig (base : Config) :
    (s.loadConfig base).warnings = optionKeys.flatMap s.complaints := by
  rw [loadConfig_eq]
  exact s.warnings_foldl_load ⟨base, []⟩ fun _ hkey => hkey

end Settings

end TexMark
