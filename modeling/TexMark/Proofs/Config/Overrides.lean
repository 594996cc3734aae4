/-
  TexMark/Proofs/Config/Overrides.lean
  ====================================
  **Options and their members.**  Every option has a value of its own type (`Config.value`), and
  options are what their values are (`ext_value`).  Reading an object then comes down to one
  equation for each option: its value is the one that its member gives, and the one there was if
  it has no member (`foldlM_setNamed_eq_ok_iff`).

  Options that were read, or loaded from settings, are `Given`: each value is one that a member
  can give, and then the member that the option is written as gives it back (`given_get`).  From
  this follow both laws of the members (`overrides_of_members`):

    * writing options and reading them again changes nothing;
    * an object put over the members of some options changes the options it names and no others,
      and is refused exactly if it is refused alone.
-/
import TexMark.Proofs.Tables
import TexMark.Settings.Load
import Mathlib.Logic.Function.Basic

namespace TexMark

/-! ### Sets of texts -/

namespace Text

theorem nodup_eraseDups (ts : List Text) : ts.eraseDups.Nodup := by
  match ts with
  | [] => exact List.nodup_nil
  | t :: ts =>
    rw [List.eraseDups_cons]
    refine List.nodup_cons.mpr ⟨?_, nodup_eraseDups _⟩
    intro hmem
    simpa using List.mem_filter.mp (List.mem_eraseDups.mp hmem)
termination_by ts.length
decreasing_by exact Nat.lt_succ_of_le (List.length_filter_le _ _)

theorem eraseDups_of_nodup {ts : List Text} (h : ts.Nodup) : ts.eraseDups = ts := by
  induction ts with
  | nil => rfl
  | cons t ts ih =>
    obtain ⟨hnew, hrest⟩ := List.nodup_cons.mp h
    have hkept : ts.filter (fun b => !b == t) = ts := by
      refine List.filter_eq_self.mpr fun b hb => ?_
      have hne : b ≠ t := fun heq => hnew (heq ▸ hb)
      simpa using hne
    rw [List.eraseDups_cons, hkept, ih hrest]

/-- A set that is written in order and read again is the same set. -/
theorem sortedSet_sort_sortedSet (ts : List Text) :
    sortedSet (sort (sortedSet ts)) = sortedSet ts := by
  have hsorted : sort (sortedSet ts) = sortedSet ts :=
    List.mergeSort_of_pairwise (pairwise_sort ts.eraseDups)
  have hnodup : (sortedSet ts).Nodup :=
    (sort_perm ts.eraseDups).nodup_iff.mpr (nodup_eraseDups ts)
  rw [hsorted]
  unfold sortedSet at hsorted hnodup ⊢
  rw [eraseDups_of_nodup hnodup, hsorted]

end Text

/-! ### Values -/

namespace ConfigField

/-- The type of the values of an option. -/
def Value : ConfigField → Type
  | extraEnvironments => List Text
  | referenceMode => ReferenceMode
  | labelBase => Int
  | citationTemplates => Table Text
  | referenceTemplates => Table Text
  | _ => Bool

theorem ofName?_name (field : ConfigField) : ofName? field.name = some field := by
  cases field <;> decide

theorem name_of_ofName? {t : Text} {field : ConfigField} (h : ofName? t = some field) :
    field.name = t := by
  have hname := List.find?_some h
  exact beq_iff_eq.mp hname

theorem name_injective {f g : ConfigField} (h : f.name = g.name) : f = g := by
  have hf := ofName?_name f
  rw [h, ofName?_name g] at hf
  exact (Option.some.inj hf).symm

end ConfigField

namespace Config

open ConfigField (ofName? ofName?_name name_of_ofName? name_injective)

def value (config : Config) : (field : ConfigField) → field.Value
  | .convertEnvironments => config.convertEnvironments
  | .extraEnvironments => config.extraEnvironments
  | .convertLegacyArrays => config.convertLegacyArrays
  | .removeLabels => config.removeLabels
  | .referenceMode => config.referenceMode
  | .expandMacros => config.expandMacros
  | .convertCitations => config.convertCitations
  | .stripSizing => config.stripSizing
  | .unifyProse => config.unifyProse
  | .numberEquations => config.numberEquations
  | .labelBase => config.labelBase
  | .citationTemplates => config.citationTemplates
  | .referenceTemplates => config.referenceTemplates

/-- The options with given values. -/
def ofValues (x : (field : ConfigField) → field.Value) : Config where
  convertEnvironments := x .convertEnvironments
  extraEnvironments := x .extraEnvironments
  convertLegacyArrays := x .convertLegacyArrays
  removeLabels := x .removeLabels
  referenceMode := x .referenceMode
  expandMacros := x .expandMacros
  convertCitations := x .convertCitations
  stripSizing := x .stripSizing
  unifyProse := x .unifyProse
  numberEquations := x .numberEquations
  labelBase := x .labelBase
  citationTemplates := x .citationTemplates
  referenceTemplates := x .referenceTemplates

@[simp] theorem value_ofValues (x : (field : ConfigField) → field.Value) (field : ConfigField) :
    (ofValues x).value field = x field := by
  cases field <;> rfl

theorem ofValues_value (config : Config) : ofValues config.value = config := rfl

/-- Options are what their values are. -/
theorem ext_value {a b : Config} (h : ∀ field, a.value field = b.value field) : a = b := by
  rw [← ofValues_value a, ← ofValues_value b, funext h]

/-- The options with one value changed. -/
def withValue (config : Config) (field : ConfigField) (x : field.Value) : Config :=
  ofValues (Function.update config.value field x)

@[simp] theorem value_withValue (config : Config) (field : ConfigField) (x : field.Value) :
    (config.withValue field x).value field = x := by
  rw [withValue, value_ofValues, Function.update_self]

theorem value_withValue_of_ne (config : Config) {field other : ConfigField} (h : other ≠ field)
    (x : field.Value) : (config.withValue field x).value other = config.value other := by
  rw [withValue, value_ofValues, Function.update_of_ne h]

/-! ### Members -/

/-- All members have the name of an option. -/
def Known (members : Table Json) : Prop := ∀ name ∈ members.names, (ofName? name).isSome

/-- The value that a member gives to its option. -/
def given (field : ConfigField) (v : Json) : Except ConfigError field.Value :=
  (Config.default.set field v).map (·.value field)

/-- Setting an option changes its value and no other, and what the value is does not depend on
    the options there were. -/
theorem set_eq (config : Config) (field : ConfigField) (v : Json) :
    config.set field v = (given field v).map (config.withValue field) := by
  cases field <;> simp only [given, set]
  case extraEnvironments => cases v <;> rfl
  case referenceMode => cases v.text?.bind ReferenceMode.ofName? <;> rfl
  case citationTemplates => cases v <;> rfl
  case referenceTemplates => cases v <;> rfl
  all_goals cases v <;> rfl

/-- The value of an option when the members of an object have been put over some options. -/
def valueUnder (config : Config) (members : Table Json) (field : ConfigField) :
    Except ConfigError field.Value :=
  match members.get? field.name with
  | none => .ok (config.value field)
  | some v => given field v

/-- Setting options one after the other sets each of them to the value of its own member. -/
theorem foldlM_setNamed_eq_ok_iff {members : Table Json} (hnodup : members.names.Nodup)
    (hknown : Known members) {config result : Config} :
    members.foldlM setNamed config = .ok result ↔
      ∀ field, config.valueUnder members field = .ok (result.value field) := by
  induction members generalizing config with
  | nil =>
    constructor
    · intro h field
      cases h
      rfl
    · intro h
      have hsame : config = result := ext_value fun field => Except.ok.inj (h field)
      rw [hsame]
      rfl
  | cons e members ih =>
    obtain ⟨hnew, hrest⟩ := List.nodup_cons.mp hnodup
    obtain ⟨first, hfirst⟩ :=
      Option.isSome_iff_exists.mp (hknown e.1 List.mem_cons_self)
    have hname : first.name = e.1 := name_of_ofName? hfirst
    have hset : setNamed config e = (given first e.2).map (config.withValue first) := by
      rw [setNamed, hfirst]
      exact set_eq config first e.2
    have hown : config.valueUnder (e :: members) first = given first e.2 := by
      simp [valueUnder, Table.get?, hname]
    rw [List.foldlM_cons, hset]
    cases hgiven : given first e.2 with
    | error error =>
      refine iff_of_false (fun h => by cases h) fun h => ?_
      have h := h first
      rw [hown, hgiven] at h
      cases h
    | ok x =>
      -- behind the first member no other one has its name
      have hlater : ∀ field, (config.withValue first x).valueUnder members field =
          config.valueUnder (e :: members) field := by
        intro field
        by_cases hfield : field = first
        · subst hfield
          rw [hown, hgiven, valueUnder, Table.get?_eq_none_of_not_mem (hname ▸ hnew)]
          exact congrArg Except.ok (value_withValue config field x)
        · have hne : e.1 ≠ field.name := fun h => hfield (name_injective (h ▸ hname)).symm
          have hget : Table.get? (e :: members) field.name = Table.get? members field.name := by
            simp [Table.get?, hne]
          simp only [valueUnder, hget, value_withValue_of_ne config hfield]
      have hstep : members.foldlM setNamed (config.withValue first x) = .ok result ↔
          ∀ field, (config.withValue first x).valueUnder members field =
            .ok (result.value field) :=
        ih hrest fun name h => hknown name (List.mem_cons_of_mem e.1 h)
      exact hstep.trans (forall_congr' fun field => by rw [hlater])

/-- **Reading an object**: it is accepted exactly if it names options only and each member gives
    a value, and the options without a member have their default. -/
theorem ofMembers_eq_ok_iff {members : Table Json} (hnodup : members.names.Nodup)
    {config : Config} :
    ofMembers members = .ok config ↔
      Known members ∧ ∀ field, Config.default.valueUnder members field =
        .ok (config.value field) := by
  have hknown : (members.names.filter fun name => (ofName? name).isNone).isEmpty ↔
      Known members := by
    rw [List.isEmpty_iff, List.filter_eq_nil_iff]
    exact forall₂_congr fun name _ => by cases ofName? name <;> simp
  unfold ofMembers
  dsimp only
  split
  · rename_i hempty
    have hall := hknown.mp hempty
    rw [foldlM_setNamed_eq_ok_iff hnodup hall]
    exact (and_iff_right hall).symm
  · rename_i hempty
    exact iff_of_false (fun h => by cases h) fun h => hempty (hknown.mpr h.1)

/-- Values for all options make options. -/
theorem exists_values_iff {config : Config} {members : Table Json} :
    (∃ result : Config, ∀ field, config.valueUnder members field = .ok (result.value field)) ↔
      ∀ field, ∃ x, config.valueUnder members field = .ok x := by
  constructor
  · rintro ⟨result, hvalues⟩ field
    exact ⟨result.value field, hvalues field⟩
  · intro hvalues
    choose x hx using hvalues
    refine ⟨ofValues x, fun field => ?_⟩
    rw [value_ofValues]
    exact hx field

/-- Whether a member gives a value does not depend on the options it is put over. -/
theorem exists_valueUnder_iff (a b : Config) {members : Table Json} {field : ConfigField} :
    (∃ x, a.valueUnder members field = .ok x) ↔ ∃ x, b.valueUnder members field = .ok x := by
  unfold valueUnder
  cases members.get? field.name with
  | none => exact iff_of_true ⟨_, rfl⟩ ⟨_, rfl⟩
  | some v => exact Iff.rfl

/-! ### Values that were given -/

/-- The value of each option is one that a member can give. -/
def Given (config : Config) : Prop := ∀ field, ∃ v, given field v = .ok (config.value field)

theorem given_templatesJson {field : ConfigField} {defaults written : Table Text}
    (hdefaults : defaults.names.Nodup) {v : Json} (h : templates field defaults v = .ok written) :
    templates field defaults (templatesJson written) = .ok written := by
  have hback : (written.map fun e => (e.1, Json.str e.2)).map (fun e => (e.1, e.2.asText)) =
      written := by
    rw [List.map_map]
    exact List.map_id written
  cases v with
  | obj members =>
    cases h
    rw [templatesJson, templates, hback, Table.merge_merge hdefaults]
  | _ => cases h

theorem given_citationTemplates (v : Json) : given .citationTemplates v =
    templates .citationTemplates defaultCitationTemplates v := by
  simp only [given, set]
  cases templates .citationTemplates defaultCitationTemplates v <;> rfl

theorem given_referenceTemplates (v : Json) : given .referenceTemplates v =
    templates .referenceTemplates defaultReferenceTemplates v := by
  simp only [given, set]
  cases templates .referenceTemplates defaultReferenceTemplates v <;> rfl

/-- The member that an option is written as gives its value back, if a member gave it. -/
theorem given_get {config : Config} {field : ConfigField} {v : Json}
    (h : given field v = .ok (config.value field)) :
    given field (config.get field) = .ok (config.value field) := by
  cases field
  case extraEnvironments =>
    cases v with
    | arr items =>
      have hvalue : Text.sortedSet (items.map Json.asText) = config.extraEnvironments :=
        Except.ok.inj h
      have hback : ((Text.sort config.extraEnvironments).map Json.str).map Json.asText =
          Text.sort config.extraEnvironments := by
        rw [List.map_map]
        exact List.map_id _
      have hset : Text.sortedSet (Text.sort config.extraEnvironments) =
          config.extraEnvironments := by
        rw [← hvalue, Text.sortedSet_sort_sortedSet]
      exact congrArg Except.ok ((congrArg Text.sortedSet hback).trans hset)
    | _ => cases h
  case referenceMode =>
    have hmode : ∀ mode : ReferenceMode, ReferenceMode.ofName? mode.name = some mode := by
      intro mode
      cases mode <;> decide
    have hread : (Json.str config.referenceMode.name).text?.bind ReferenceMode.ofName? =
        some config.referenceMode := hmode config.referenceMode
    simp only [given, set, get, hread]
    rfl
  case citationTemplates =>
    rw [given_citationTemplates] at h ⊢
    exact given_templatesJson (by decide) h
  case referenceTemplates =>
    rw [given_referenceTemplates] at h ⊢
    exact given_templatesJson (by decide) h
  all_goals rfl

theorem Given.set {config changed : Config} (hconfig : config.Given) {field : ConfigField}
    {v : Json} (h : config.set field v = .ok changed) : changed.Given := by
  intro other
  rw [set_eq] at h
  cases hgiven : given field v with
  | error error => rw [hgiven] at h; cases h
  | ok x =>
    rw [hgiven] at h
    cases h
    by_cases hother : other = field
    · subst hother
      exact ⟨v, by rw [value_withValue, hgiven]⟩
    · rw [value_withValue_of_ne config hother]
      exact hconfig other

theorem given_default : Config.default.Given := by
  intro field
  refine ⟨match field with
    | .extraEnvironments => .arr []
    | .citationTemplates => .obj []
    | .referenceTemplates => .obj []
    | other => Config.default.get other, ?_⟩
  cases field
  case extraEnvironments =>
    have hnone : Text.sortedSet [] = [] := List.mergeSort_nil
    exact congrArg Except.ok hnone
  all_goals rfl

/-- Options that were read have values that members give. -/
theorem given_of_ofMembers {members : Table Json} {config : Config}
    (h : ofMembers members = .ok config) : config.Given := by
  have hfold : ∀ (ms : Table Json) (start : Config), start.Given →
      ms.foldlM setNamed start = .ok config → config.Given := by
    intro ms
    induction ms with
    | nil =>
      intro start hstart h
      cases h
      exact hstart
    | cons e ms ih =>
      intro start hstart h
      rw [List.foldlM_cons] at h
      cases hstep : setNamed start e with
      | error error => rw [hstep] at h; cases h
      | ok next =>
        rw [hstep] at h
        refine ih next ?_ h
        unfold setNamed at hstep
        split at hstep
        · exact hstart.set hstep
        · cases hstep
  unfold ofMembers at h
  dsimp only at h
  split at h
  · exact hfold members .default given_default h
  · cases h

/-! ### Loading settings -/

section Loading

variable (settings : Settings) {l : Settings.Loaded}

theorem Given.loadFlag (h : l.config.Given) (field : ConfigField) :
    (settings.loadFlag l field).config.Given := by
  unfold Settings.loadFlag
  dsimp only
  split
  · exact h
  · split
    · unfold Settings.withFlag
      dsimp only
      split
      · rename_i hset
        exact h.set hset
      · exact h
    · exact h

theorem Given.loadExtras (h : l.config.Given) : (settings.loadExtras l).config.Given := by
  unfold Settings.loadExtras
  split
  · exact h
  · rename_i raw _
    dsimp only
    let names := ((Text.splitOn ',' raw).map Text.strip).filter fun name => !name.isEmpty
    have hback : (names.map Json.str).map Json.asText = names := by
      rw [List.map_map]
      exact List.map_id names
    have hset : l.config.set .extraEnvironments (.arr (names.map .str)) =
        .ok { l.config with extraEnvironments := Text.sortedSet names } := by
      simp only [Config.set, hback]
    exact h.set hset

theorem Given.loadMode (h : l.config.Given) : (settings.loadMode l).config.Given := by
  unfold Settings.loadMode
  dsimp only
  split
  · exact h
  · split
    · rename_i mode _
      have hset : l.config.set .referenceMode (.str mode.name) =
          .ok { l.config with referenceMode := mode } := by
        cases mode <;> rfl
      exact h.set hset
    · exact h

theorem Given.loadBase (h : l.config.Given) : (settings.loadBase l).config.Given := by
  unfold Settings.loadBase
  dsimp only
  split
  · exact h
  · split
    · rename_i n _
      have hset : l.config.set .labelBase (.int n) = .ok { l.config with labelBase := n } := rfl
      exact h.set hset
    · exact h

/-- What a setting changes, a member could change as well. -/
theorem Given.loadConfig {config : Config} (h : config.Given) :
    (settings.loadConfig config).config.Given := by
  have hflags : ∀ (fields : List ConfigField) (l : Settings.Loaded), l.config.Given →
      (fields.foldl settings.loadFlag l).config.Given := by
    intro fields
    induction fields with
    | nil => exact fun l hl => hl
    | cons field fields ih => exact fun l hl => ih _ (hl.loadFlag settings field)
  have hstart := hflags SettingKey.flagFields ⟨config, []⟩ h
  exact ((hstart.loadExtras settings).loadMode settings).loadBase settings

end Loading

/-! ### Overrides -/

theorem names_members (config : Config) :
    config.members.names = ConfigField.all.map ConfigField.name := by
  rw [members, Table.names, List.map_map]
  rfl

theorem nodup_members (config : Config) : config.members.names.Nodup := by
  rw [names_members]
  decide +kernel

theorem known_members (config : Config) : Known config.members := by
  intro name hname
  rw [names_members] at hname
  obtain ⟨field, -, rfl⟩ := List.mem_map.mp hname
  rw [ofName?_name]
  rfl

theorem get?_members (config : Config) (field : ConfigField) :
    config.members.get? field.name = some (config.get field) := by
  cases field <;> rfl

/-- An object put over the members of some options is read as if it were put over the options
    themselves. -/
theorem ofMembers_merge_eq_ok_iff {base : Config} (hbase : base.Given) {overrides : Table Json}
    (hnodup : overrides.names.Nodup) {config : Config} :
    ofMembers (base.members.merge overrides) = .ok config ↔
      Known overrides ∧ ∀ field, base.valueUnder overrides field = .ok (config.value field) := by
  have hknown : Known (base.members.merge overrides) ↔ Known overrides := by
    constructor
    · intro h name hname
      exact h name (Table.mem_names_merge.mpr (.inr hname))
    · intro h name hname
      rcases Table.mem_names_merge.mp hname with hname | hname
      · exact known_members base name hname
      · exact h name hname
  have hvalue : ∀ field, Config.default.valueUnder (base.members.merge overrides) field =
      base.valueUnder overrides field := by
    intro field
    obtain ⟨v, hv⟩ := hbase field
    unfold valueUnder
    rw [Table.get?_merge _ hnodup, get?_members]
    cases overrides.get? field.name with
    | none => exact given_get hv
    | some w => rfl
  rw [ofMembers_eq_ok_iff (Table.nodup_names_merge (nodup_members base)), hknown]
  exact and_congr_right fun _ => forall_congr' fun field => by rw [hvalue]

/-- An object put over the members of some options is accepted exactly if it is accepted
    alone. -/
theorem exists_ofMembers_merge_iff {base : Config} (hbase : base.Given) {overrides : Table Json}
    (hnodup : overrides.names.Nodup) :
    (∃ config, ofMembers (base.members.merge overrides) = .ok config) ↔
      ∃ own, ofMembers overrides = .ok own :=
  calc (∃ config, ofMembers (base.members.merge overrides) = .ok config)
      ↔ Known overrides ∧ ∀ field, ∃ x, base.valueUnder overrides field = .ok x := by
        simp only [ofMembers_merge_eq_ok_iff hbase hnodup, exists_and_left, exists_values_iff]
    _ ↔ Known overrides ∧ ∀ field, ∃ x, Config.default.valueUnder overrides field = .ok x :=
        and_congr_right fun _ => forall_congr' fun _ => exists_valueUnder_iff base _
    _ ↔ ∃ own, ofMembers overrides = .ok own := by
        simp only [ofMembers_eq_ok_iff hnodup, exists_and_left, exists_values_iff]

/-- Each option has the value that the object alone gives it, or the one it had. -/
theorem value_of_ofMembers_merge {base : Config} (hbase : base.Given) {overrides : Table Json}
    (hnodup : overrides.names.Nodup) {config own : Config}
    (hconfig : ofMembers (base.members.merge overrides) = .ok config)
    (hown : ofMembers overrides = .ok own) (field : ConfigField) :
    config.value field =
      if field.name ∈ overrides.names then own.value field else base.value field := by
  have hover := ((ofMembers_merge_eq_ok_iff hbase hnodup).mp hconfig).2 field
  have halone := ((ofMembers_eq_ok_iff hnodup).mp hown).2 field
  unfold valueUnder at hover halone
  split
  · rename_i hnamed
    obtain ⟨v, hv⟩ := Option.isSome_iff_exists.mp (Table.get?_isSome_iff.mpr hnamed)
    rw [hv] at hover halone
    exact Except.ok.inj (hover.symm.trans halone)
  · rename_i hnamed
    rw [Table.get?_eq_none_of_not_mem hnamed] at hover
    exact (Except.ok.inj hover).symm

/-- Options that were read from an object, as they are or with settings loaded over them. -/
def Obtained (config : Config) : Prop :=
  ∃ members read, ofMembers members = .ok read ∧
    (config = read ∨ ∃ settings : Settings, config = (settings.loadConfig read).config)

theorem Obtained.given {config : Config} (h : Obtained config) : config.Given := by
  obtain ⟨members, read, hread, rfl | ⟨settings, rfl⟩⟩ := h
  · exact given_of_ofMembers hread
  · exact (given_of_ofMembers hread).loadConfig settings

/-- **Options are written and read back, and overridden one by one.**

    * Options that an object gives are given by their own members as well.
    * An object whose members have different names, put over the members of options that were
      read or loaded, is accepted exactly if it is accepted alone. Then every option that it
      names has the value that the object alone gives it, and every other one the value it
      had. -/
theorem overrides_of_members :
    (∀ (members : Table Json) (config : Config), ofMembers members = .ok config →
      ofMembers config.members = .ok config) ∧
    ∀ (base : Config), Obtained base → ∀ overrides : Table Json, overrides.names.Nodup →
      ((∃ config, ofMembers (base.members.merge overrides) = .ok config) ↔
        ∃ own, ofMembers overrides = .ok own) ∧
      ∀ config own, ofMembers (base.members.merge overrides) = .ok config →
        ofMembers overrides = .ok own → ∀ field, config.value field =
          if field.name ∈ overrides.names then own.value field else base.value field := by
  constructor
  · intro members config h
    have hgiven := given_of_ofMembers h
    have hnodup : Table.names ([] : Table Json) |>.Nodup := List.nodup_nil
    have hread : ofMembers (config.members.merge []) = .ok config :=
      (ofMembers_merge_eq_ok_iff hgiven hnodup).mpr
        ⟨by simp [Known, Table.names], fun field => rfl⟩
    exact hread
  · intro base hbase overrides hnodup
    have hgiven := hbase.given
    refine ⟨exists_ofMembers_merge_iff hgiven hnodup, fun config own hconfig hown => ?_⟩
    exact value_of_ofMembers_merge hgiven hnodup hconfig hown

/-- The default options with a setting loaded over them. -/
def loadedLabels : Config :=
  (Settings.loadConfig ⟨some "TEXMD_REMOVE_LABELS=yes\n", []⟩ Config.default).config

/-- Names of further environments, and a template for one citation command. -/
def namedOverrides : Table Json :=
  [("extra_environments", .arr [.str "b", .str "a", .str "b"]),
    ("citation_templates", .obj [("cite", .str "<$key>")])]

theorem overrides_of_members_loaded :
    ∃ config own, ofMembers (loadedLabels.members.merge namedOverrides) = .ok config ∧
      ofMembers namedOverrides = .ok own ∧ ofMembers own.members = .ok own ∧
      config.removeLabels = true ∧ config.extraEnvironments = own.extraEnvironments ∧
      config.citationTemplates = own.citationTemplates := by
  have hread : ofMembers [] = .ok Config.default := rfl
  have hbase : Obtained loadedLabels := ⟨[], _, hread, .inr ⟨_, rfl⟩⟩
  have hnodup : namedOverrides.names.Nodup := by decide +kernel
  obtain ⟨hiff, hvalues⟩ := overrides_of_members.2 _ hbase _ hnodup
  have haccepted : ∃ own, ofMembers namedOverrides = .ok own := ⟨_, rfl⟩
  obtain ⟨config, hconfig⟩ := hiff.mpr haccepted
  obtain ⟨own, hown⟩ := haccepted
  have hvalue := hvalues config own hconfig hown
  have hlabels : loadedLabels.removeLabels = true := by decide +kernel
  exact ⟨config, own, hconfig, hown, overrides_of_members.1 _ _ hown,
    (hvalue .removeLabels).trans hlabels, hvalue .extraEnvironments, hvalue .citationTemplates⟩

end Config

end TexMark
