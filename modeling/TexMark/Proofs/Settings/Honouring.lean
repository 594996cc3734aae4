/-
  TexMark/Proofs/Settings/Honouring.lean
  ======================================
  **What is accepted is honoured.**  A value is checked without the blanks around it.  It is
  stored as it is, and where its key is used it is read with the blanks in front of it.

    * `SettingKey.accepted_cases` — what an accepted value is, by the kind of its key;
    * `SettingKey.value?_stripEnd` — it stands for the same where its key is used, unless it is
      an integer behind a unit separator;
    * `Settings.Over.taken_eq` — so the place that uses a key takes the value that was checked,
      and gives no warning about it;
    * `Command.over_written` — a key that has been stored in a new file is set, and all other
      keys are as they are without a file.
-/
import TexMark.Proofs.Command.Storing
import TexMark.Proofs.Settings.Loading
import TexMark.Proofs.Settings.Margins

namespace TexMark

open SettingsFile (isQuote)
open Text (isBlank strip stripEnd)

/-! ### Accepted values -/

namespace SettingKey

theorem ofName?_name {key : SettingKey} (hkey : key ∈ all) : ofName? key.name = some key := by
  have hall : ∀ k ∈ all, ofName? k.name = some k := by decide +kernel
  exact hall key hkey

theorem name_ne {key other : SettingKey} (hkey : key ∈ all) (hother : other ∈ all)
    (h : other ≠ key) : other.name ≠ key.name := by
  intro hname
  have hsame := ofName?_name hother
  rw [hname, ofName?_name hkey] at hsame
  exact h (Option.some.inj hsame).symm

theorem optionKeys_subset : ∀ key ∈ optionKeys, key ∈ all := by decide

def integerKeys : List SettingKey := [labelBase, tcpPort, workers]

/-- The keys whose values are checked for the value they stand for. -/
def checkedKeys : List SettingKey := flagFields.map flag ++ referenceMode :: integerKeys

theorem mem_checkedKeys {key : SettingKey} : key ∈ checkedKeys ↔
    (∃ field ∈ flagFields, key = flag field) ∨ key = referenceMode ∨ key = labelBase ∨
      key = tcpPort ∨ key = workers := by
  simp [checkedKeys, integerKeys, eq_comm]

theorem checkedKeys_subset : ∀ key ∈ checkedKeys, key ∈ all := by decide

variable {key : SettingKey} {value : Text}

/-- Text that can be stored under a key without loss, up to blanks around it. -/
def Plain (t : Text) : Prop := t ≠ [] ∧ ∀ c ∈ t, ¬ isQuote c

/-- A word that is read whatever the case of its letters has no quotes. -/
theorem plain_of_small {t word : Text} (h : small t = word)
    (hword : word ≠ [] ∧ word.all fun c => !isQuote c) : Plain t := by
  subst h
  constructor
  · rintro rfl
    exact hword.1 rfl
  · intro c hc hquote
    have hsmall := List.all_eq_true.mp hword.2 c.toLower (List.mem_map_of_mem hc)
    revert hsmall
    simp only [isQuote, Bool.or_eq_true, beq_iff_eq] at hquote
    rcases hquote with rfl | rfl <;> decide

theorem plain_of_truthValue? {b : Bool} (h : truthValue? value = some b) : Plain (strip value) := by
  have hwords : ∀ word ∈ onWords ++ offWords, word ≠ [] ∧ word.all fun c => !isQuote c := by decide
  refine plain_of_small rfl (hwords _ (List.mem_append.mpr ?_))
  unfold truthValue? at h
  dsimp only at h
  split at h
  · rename_i hon
    exact .inl (by simpa using hon)
  · split at h
    · rename_i hoff
      exact .inr (by simpa using hoff)
    · cases h

theorem plain_of_mode? {mode : ReferenceMode} (h : mode? value = some mode) :
    Plain (strip value) := by
  have hname : mode.name = small (strip value) := beq_iff_eq.mp (List.find?_some h :)
  refine plain_of_small hname.symm ?_
  cases mode <;> decide

theorem plain_of_read {n : Int} (h : Integer.read (strip value) = .ok n) :
    Plain (strip value) := by
  have hcore : strip (strip value) = strip value := Text.strip_strip value
  exact ⟨Integer.ne_nil_of_read h,
    Integer.not_isQuote_of_read h (Integer.trim_append_core (u := []) hcore h)⟩

theorem integerRefusal?_eq_none_iff {valid : Int → Bool} {refusal : Refusal} {raw : Text} :
    integerRefusal? key valid refusal raw = none ↔
      ∃ n, Integer.read raw = .ok n ∧ valid n := by
  unfold integerRefusal?
  cases Integer.read raw with
  | error e => simp
  | ok n => simp

/-- **What an accepted value is**, by the kind of its key. -/
theorem accepted_cases (hkey : key ∈ checkedKeys) (haccepted : key.valueRefusal? value = none) :
    (∃ field ∈ flagFields, ∃ b, key = flag field ∧ truthValue? (strip value) = some b) ∨
      (∃ mode, key = referenceMode ∧ mode? (strip value) = some mode) ∨
      ∃ n, key ∈ integerKeys ∧ Integer.read (strip value) = .ok n ∧
        (key = tcpPort → isPort n) ∧ (key = workers → 1 ≤ n) := by
  rcases mem_checkedKeys.mp hkey with ⟨field, hfield, rfl⟩ | rfl | rfl | rfl | rfl
  · cases h : truthValue? (strip value) with
    | none => simp [valueRefusal?, h] at haccepted
    | some b => exact .inl ⟨field, hfield, b, rfl, rfl⟩
  · cases h : mode? (strip value) with
    | none => simp [valueRefusal?, h] at haccepted
    | some mode => exact .inr (.inl ⟨mode, rfl, rfl⟩)
  · obtain ⟨n, hn, -⟩ := integerRefusal?_eq_none_iff.mp haccepted
    exact .inr (.inr ⟨n, by decide, hn, nofun, nofun⟩)
  · obtain ⟨n, hn, hport⟩ := integerRefusal?_eq_none_iff.mp haccepted
    exact .inr (.inr ⟨n, by decide, hn, fun _ => hport, nofun⟩)
  · obtain ⟨n, hn, hpositive⟩ := integerRefusal?_eq_none_iff.mp haccepted
    exact .inr (.inr ⟨n, by decide, hn, nofun, fun _ => of_decide_eq_true hpositive⟩)

theorem plain_of_accepted (hkey : key ∈ checkedKeys)
    (haccepted : key.valueRefusal? value = none) : Plain (strip value) := by
  rw [← Text.strip_strip]
  rcases accepted_cases hkey haccepted with ⟨-, -, b, -, h⟩ | ⟨mode, -, h⟩ | ⟨n, -, h, -⟩
  · exact plain_of_truthValue? h
  · exact plain_of_mode? h
  · exact plain_of_read ((Text.strip_strip value).symm ▸ h)

theorem value?_of_mem_integerKeys (hkey : key ∈ integerKeys) (raw : Text) :
    key.value? raw = (Integer.read raw).toOption.map .int := by
  simp only [integerKeys, List.mem_cons, List.not_mem_nil, or_false] at hkey
  rcases hkey with rfl | rfl | rfl <;> rfl

/-- An integer behind a unit separator is not **heard** where its key is used. -/
def Heard (key : SettingKey) (value : Text) : Prop :=
  key ∈ integerKeys → '\x1f' ∉ value.takeWhile isBlank

instance decidableHeard (key : SettingKey) (value : Text) : Decidable (key.Heard value) :=
  inferInstanceAs (Decidable (_ → _))

theorem heard_of_not_mem (h : key ∉ integerKeys) : key.Heard value := fun hmem => absurd hmem h

/-- Where its key is used an accepted value stands for what it was checked for, if it is heard,
    and for nothing otherwise. -/
theorem value?_stripEnd (hkey : key ∈ checkedKeys) (haccepted : key.valueRefusal? value = none)
    (hline : ∀ c ∈ value, Text.isLineBoundary c = false) :
    ∃ v, key.value? (strip value) = some v ∧
      key.value? (stripEnd value) = if key.Heard value then some v else none := by
  rcases accepted_cases hkey haccepted with ⟨field, -, b, rfl, h⟩ | ⟨mode, rfl, h⟩ | ⟨n, hn, h, -⟩
  · have hraw : truthValue? (stripEnd value) = truthValue? (strip value) := by
      unfold truthValue?
      rw [Text.strip_stripEnd, Text.strip_strip]
    refine ⟨.bool b, by rw [value?, h]; rfl, ?_⟩
    rw [if_pos (heard_of_not_mem (by simp [integerKeys])), value?, hraw, h]
    rfl
  · have hraw : mode? (stripEnd value) = mode? (strip value) := by
      unfold mode?
      rw [Text.strip_stripEnd, Text.strip_strip]
    refine ⟨.str mode.name, by rw [value?, h]; rfl, ?_⟩
    rw [if_pos (heard_of_not_mem (by simp [integerKeys])), value?, hraw, h]
    rfl
  · refine ⟨.int n, by rw [value?_of_mem_integerKeys hn, h]; rfl, ?_⟩
    have hcore : strip (strip value) = strip value := Text.strip_strip value
    have hblank : ∀ c ∈ value.takeWhile isBlank, isBlank c := fun c => List.mem_takeWhile_imp
    have hmargins : (∀ c ∈ value.takeWhile isBlank, Integer.isMargin c) ↔ key.Heard value := by
      have hiff : ∀ c ∈ value.takeWhile isBlank, Integer.isMargin c ↔ c ≠ '\x1f' := fun c hc =>
        Integer.isMargin_iff (hblank c hc) (hline c ((List.takeWhile_sublist _).subset hc))
      constructor
      · exact fun hall _ hmem => (hiff _ hmem).mp (hall _ hmem) rfl
      · rintro hheard c hc
        exact (hiff c hc).mpr fun heq => hheard hn (heq ▸ hc)
    rw [value?_of_mem_integerKeys hn, Text.stripEnd_eq_append (Integer.ne_nil_of_read h)]
    split
    · rename_i hheard
      rw [Integer.read_append_margin hcore h (hmargins.mpr hheard)]
      rfl
    · rename_i hunheard
      have hnone := Integer.read_append_separator hcore h hblank (mt hmargins.mp hunheard)
      cases hread : Integer.read (value.takeWhile isBlank ++ strip value) with
      | error e => rfl
      | ok m => exact absurd hread (hnone m)

end SettingKey

/-! ### Where keys are used -/

namespace Settings

open SettingKey (optionKeys checkedKeys integerKeys ofField? Heard)

/-- What is taken from settings where a key is used, and the warnings given there. -/
structure Taken where
  value : Json
  warnings : List Text

/-- The place where a key is used: options are put over those of `base`, the port may have any
    default, and the number of workers is asked for when the service starts.  Nothing is told
    here of the level of log lines. -/
def taken (s : Settings) (base : Config) (default : Int) (key : SettingKey) : Taken :=
  match key with
  | .tcpPort => ⟨.int (s.tcpPort default), []⟩
  | .workers => ⟨.int s.loadService.workers, s.loadService.warnings⟩
  | key =>
    let loaded := s.loadConfig base
    ⟨(key.field?.map loaded.config.get).getD .null, loaded.warnings⟩

/-- Settings that have a raw value for a key that others do not have, and agree with them in all
    other keys. -/
structure Over (s others : Settings) (key : SettingKey) (raw : Text) : Prop where
  own : s.get? key.name = some raw
  unset : others.get? key.name = none
  agree : ∀ other ∈ SettingKey.all, other ≠ key → s.get? other.name = others.get? other.name

variable {s others : Settings} {key : SettingKey} {value : Text}

theorem taken_of_field? {f : ConfigField} (hfield : key.field? = some f) (s : Settings)
    (base : Config) (default : Int) : s.taken base default key =
      ⟨(s.loadConfig base).config.get f, (s.loadConfig base).warnings⟩ := by
  cases key <;> cases hfield <;> rfl

theorem toOption_read_eq_some_iff {raw : Text} {v : Json} :
    (Integer.read raw).toOption.map Json.int = some v ↔
      ∃ n, Integer.read raw = .ok n ∧ v = .int n := by
  cases Integer.read raw <;> simp [Except.toOption, eq_comm]

theorem toOption_read_eq_none_iff {raw : Text} :
    (Integer.read raw).toOption.map Json.int = none ↔ ∃ e, Integer.read raw = .error e := by
  cases Integer.read raw <;> simp [Except.toOption]

namespace Over

variable {raw : Text} (h : Over s others key raw) (base : Config)
include h

theorem complaints_own :
    s.complaints key = if (key.value? raw).isSome then [] else key.complaints raw := by
  rw [Settings.complaints, h.own]

theorem complaints_unset : others.complaints key = [] := by
  rw [Settings.complaints, h.unset]

theorem complaints_other {other : SettingKey} (hother : other ∈ optionKeys) (hne : other ≠ key) :
    s.complaints other = others.complaints other := by
  rw [Settings.complaints, Settings.complaints,
    h.agree other (SettingKey.optionKeys_subset other hother) hne]

/-- Loading gives no further warning if the raw value stands for one. -/
theorem warnings_eq (hquiet : key ∈ optionKeys → (key.value? raw).isSome) :
    (s.loadConfig base).warnings = (others.loadConfig base).warnings := by
  rw [warnings_loadConfig, warnings_loadConfig]
  refine List.flatMap_congr fun other hother => ?_
  by_cases hkey : other = key
  · subst hkey
    rw [h.complaints_own, h.complaints_unset, if_pos (hquiet hother)]
  · exact h.complaints_other hother hkey

/-- A label base that stands for none is the last thing that loading warns about. -/
theorem warnings_labelBase (hkey : key = .labelBase) (hnone : key.value? raw = none) :
    (s.loadConfig base).warnings =
      (others.loadConfig base).warnings ++ key.complaints raw := by
  subst hkey
  obtain ⟨front, hsplit, hlast⟩ : ∃ front, optionKeys = front ++ [SettingKey.labelBase] ∧
      ∀ other ∈ front, other ≠ SettingKey.labelBase :=
    ⟨SettingKey.flagFields.map .flag ++ [.extraEnvironments, .referenceMode], rfl, by decide⟩
  have hfront : front.flatMap s.complaints = front.flatMap others.complaints := by
    refine List.flatMap_congr fun other hother => h.complaints_other ?_ (hlast other hother)
    exact hsplit ▸ List.mem_append_left _ hother
  rw [warnings_loadConfig, warnings_loadConfig, hsplit, List.flatMap_append, List.flatMap_append,
    hfront, List.flatMap_singleton, List.flatMap_singleton, h.complaints_own, h.complaints_unset,
    hnone, List.append_nil]
  rfl

theorem get_own {f : ConfigField} (hkey : key ∈ optionKeys) (hfield : key.field? = some f) :
    (s.loadConfig base).config.get f =
      (key.value? raw).getD ((others.loadConfig base).config.get f) := by
  have hof : ofField? f = some key := SettingKey.ofField?_eq_some_iff.mpr ⟨hkey, hfield⟩
  rw [get_loadConfig, get_loadConfig, hof, Option.bind_some, Option.bind_some, setting?, setting?,
    h.own, h.unset]
  rfl

theorem taken_option (default : Int) (hkey : key ∈ optionKeys) {v : Json}
    (hread : key.value? raw = some v) :
    s.taken base default key = ⟨v, (others.taken base default key).warnings⟩ := by
  obtain ⟨f, hfield⟩ : ∃ f, key.field? = some f := by
    rcases SettingKey.mem_optionKeys.mp hkey with ⟨f, -, rfl⟩ | rfl | rfl | rfl <;>
      exact ⟨_, rfl⟩
  rw [taken_of_field? hfield, taken_of_field? hfield, h.get_own base hkey hfield, hread,
    h.warnings_eq base fun _ => by rw [hread]; rfl]
  rfl

theorem taken_labelBase (default : Int) (hkey : key = .labelBase)
    (hread : key.value? raw = none) :
    s.taken base default key = ⟨(others.taken base default key).value,
      (others.taken base default key).warnings ++ key.complaints raw⟩ := by
  have hfield : key.field? = some .labelBase := by rw [hkey]; rfl
  have hoption : key ∈ optionKeys := by rw [hkey]; decide
  rw [taken_of_field? hfield, taken_of_field? hfield, h.get_own base hoption hfield, hread,
    h.warnings_labelBase base hkey hread]
  rfl

theorem nonempty?_own (hne : raw ≠ []) : s.nonempty? key = some raw := by
  rw [nonempty?, h.own]
  simpa using hne

theorem tcpPort_unset (default : Int) (hkey : key = .tcpPort) :
    others.tcpPort default = default := by
  rw [tcpPort, ← hkey, h.unset]
  rfl

theorem loadService_unset (hkey : key = .workers) : others.loadService =
    ⟨(others.loadConfig .default).config, defaultWorkers,
      (others.loadConfig .default).warnings⟩ := by
  rw [loadService, ← hkey, nonempty?, h.unset]
  rfl

theorem taken_service (default : Int) {n : Int}
    (hkey : key = .tcpPort ∧ SettingKey.isPort n ∨ key = .workers ∧ 1 ≤ n) (hne : raw ≠ [])
    (hread : Integer.read raw = .ok n) :
    s.taken base default key = ⟨.int n, (others.taken base default key).warnings⟩ := by
  rcases hkey with ⟨rfl, hport⟩ | ⟨rfl, hpositive⟩
  · have hown : s.tcpPort default = n := by
      rw [tcpPort, h.own, Option.map_some, hread]
      exact if_pos hport
    rw [taken, hown]
    rfl
  · have hown : s.loadService =
        ⟨(s.loadConfig .default).config, n, (others.loadConfig .default).warnings⟩ := by
      rw [loadService, h.nonempty?_own hne, ← h.warnings_eq .default fun hmem => nomatch hmem]
      simp only [hread, Int.max_eq_right hpositive]
    rw [taken, taken, hown, h.loadService_unset rfl]

theorem taken_service_error (default : Int) (hkey : key = .tcpPort ∨ key = .workers)
    (hne : raw ≠ []) {e : Integer.ReadError} (hread : Integer.read raw = .error e) :
    s.taken base default key = ⟨(others.taken base default key).value,
      (others.taken base default key).warnings ++ key.complaints raw⟩ := by
  rcases hkey with rfl | rfl
  · have hown : s.tcpPort default = default := by
      rw [tcpPort, h.own, Option.map_some, hread]
    rw [taken, taken, hown, h.tcpPort_unset default rfl]
    rfl
  · have hown : s.loadService = ⟨(s.loadConfig .default).config, defaultWorkers,
        (others.loadConfig .default).warnings ++ [ignoring .workers raw]⟩ := by
      rw [loadService, h.nonempty?_own hne, ← h.warnings_eq .default fun hmem => nomatch hmem]
      simp only [hread]
    rw [taken, taken, hown, h.loadService_unset rfl]
    rfl

end Over

/-- A value that is heard is taken. -/
theorem Over.taken_heard (h : Over s others key (stripEnd value)) (hkey : key ∈ checkedKeys)
    (haccepted : key.valueRefusal? value = none) {v : Json}
    (hv : key.value? (strip value) = some v) (hraw : key.value? (stripEnd value) = some v)
    (base : Config) (default : Int) :
    s.taken base default key = ⟨v, (others.taken base default key).warnings⟩ := by
  rcases SettingKey.accepted_cases hkey haccepted with
    ⟨f, hf, -, rfl, -⟩ | ⟨-, rfl, -⟩ | ⟨n, hinteger, hn, hport, hpositive⟩
  · exact h.taken_option base default (SettingKey.mem_optionKeys.mpr (.inl ⟨f, hf, rfl⟩)) hraw
  · exact h.taken_option base default (by decide) hraw
  · by_cases hoption : key ∈ optionKeys
    · exact h.taken_option base default hoption hraw
    · -- the other integers belong to the service
      have hservice : ∀ k ∈ integerKeys, k ∉ optionKeys → k = .tcpPort ∨ k = .workers := by
        decide
      rw [SettingKey.value?_of_mem_integerKeys hinteger] at hv hraw
      obtain ⟨m, hm, rfl⟩ := toOption_read_eq_some_iff.mp hraw
      rw [hn] at hv
      cases hv
      exact h.taken_service base default ((hservice key hinteger hoption).imp
        (fun h => ⟨h, hport h⟩) fun h => ⟨h, hpositive h⟩)
        (Text.stripEnd_ne_nil (Integer.ne_nil_of_read hn)) hm

/-- An integer that is not heard is passed over, as if its key were not set. -/
theorem Over.taken_unheard (h : Over s others key (stripEnd value)) (hkey : key ∈ integerKeys)
    (hne : strip value ≠ []) (hraw : key.value? (stripEnd value) = none) (base : Config)
    (default : Int) : s.taken base default key = ⟨(others.taken base default key).value,
      (others.taken base default key).warnings ++ key.complaints (stripEnd value)⟩ := by
  have hcases : key = .labelBase ∨ key = .tcpPort ∨ key = .workers := by
    simpa [integerKeys] using hkey
  rcases hcases with hbase | hservice
  · exact h.taken_labelBase base default hbase hraw
  · rw [SettingKey.value?_of_mem_integerKeys hkey] at hraw
    obtain ⟨e, he⟩ := toOption_read_eq_none_iff.mp hraw
    exact h.taken_service_error base default hservice (Text.stripEnd_ne_nil hne) he

/-- **Where a key is used** an accepted value that is heard is taken, with no warning about it.
    One that is not heard is passed over. -/
theorem Over.taken_eq (h : Over s others key (stripEnd value)) (hkey : key ∈ checkedKeys)
    (haccepted : key.valueRefusal? value = none)
    (hline : ∀ c ∈ value, Text.isLineBoundary c = false) (base : Config) (default : Int) :
    ∃ v, key.value? (strip value) = some v ∧ s.taken base default key =
      if Heard key value then ⟨v, (others.taken base default key).warnings⟩
      else ⟨(others.taken base default key).value,
        (others.taken base default key).warnings ++ key.complaints (stripEnd value)⟩ := by
  obtain ⟨v, hv, hraw⟩ := SettingKey.value?_stripEnd hkey haccepted hline
  refine ⟨v, hv, ?_⟩
  split
  · rename_i hheard
    exact h.taken_heard hkey haccepted hv (hraw.trans (if_pos hheard)) base default
  · rename_i hunheard
    have hinteger : key ∈ integerKeys := by
      by_contra hother
      exact hunheard (SettingKey.heard_of_not_mem hother)
    exact h.taken_unheard hinteger (SettingKey.plain_of_accepted hkey haccepted).1
      (hraw.trans (if_neg hunheard)) base default

end Settings

/-! ### Storing and using -/

namespace Command

open SettingKey (checkedKeys Heard ofField?)

/-- In a new settings file stands the key alone, and what else there is comes from the
    environment. -/
theorem over_written {key : SettingKey} (hkey : key ∈ SettingKey.all) {value : Text}
    (hline : ∀ c ∈ stripEnd value, Text.isLineBoundary c = false)
    (hplain : SettingKey.Plain (strip value)) (environment : Table Text) :
    Settings.Over
      ⟨some (Text.unifyLineFeeds (SettingsFile.write none key.name value)), environment⟩
      ⟨none, environment.erase key.name⟩ key (stripEnd value) := by
  obtain ⟨hothers, hown⟩ := get?_written hkey hline ⟨none, environment⟩
  have hseen : ¬ SettingsFile.Shadowed key.name (Text.splitLines []) := by
    rintro ⟨⟨l, hl, -⟩, -⟩
    cases hl
  refine ⟨?_, ?_, fun other hother hne => ?_⟩
  · rw [hown hseen, Text.trim_isQuote_stripEnd hplain.1 hplain.2]
  · have herased : (environment.erase key.name).get? key.name = none :=
      Table.get?_erase_self environment key.name
    simp only [Settings.get?, Settings.fileEntries, herased]
    rfl
  · have hname := SettingKey.name_ne hkey hother hne
    rw [Settings.get?, hothers other.name hname, Settings.get?]
    simp only [Settings.fileEntries, Table.get?_erase_of_ne environment hname]

/-- **An accepted value is honoured.**  Where there is no settings file, storing a value that the
    check accepts, of one line, comes to an end, and the place where the key is used then takes
    the value that was checked, with the warnings that it gives without the key and no other.
    This fails for an integer behind a unit separator alone, which is passed over as if the key
    were not set, except for the warning about it.

    Whatever the settings are, each option that is loaded is as its own key says, and as it was
    if the key is unset or has a raw value that stands for none. -/
theorem honoured_of_accepted {disk : Disk} {environment : Table Text} {key : SettingKey}
    {value : Text} (hmissing : settingsContent disk = .ok none) (hkey : key ∈ checkedKeys)
    (hline : ∀ c ∈ value, Text.isLineBoundary c = false)
    (haccepted : SettingKey.refusal? key.name value = none) (base : Config) (default : Int) :
    (∃ changed s v, storeSetting disk key.name value = .ok changed ∧
      settings changed environment = .ok s ∧ key.value? (strip value) = some v ∧
      let unset := Settings.taken ⟨none, environment.erase key.name⟩ base default key
      s.taken base default key =
        if Heard key value then ⟨v, unset.warnings⟩
        else ⟨unset.value, unset.warnings ++ key.complaints (stripEnd value)⟩) ∧
    ∀ (s : Settings) (f : ConfigField), (s.loadConfig base).config.get f =
      ((ofField? f).bind fun k => (s.get? k.name).bind k.value?).getD (base.get f) := by
  refine ⟨?_, fun s f => s.get_loadConfig base f⟩
  have hall : key ∈ SettingKey.all := SettingKey.checkedKeys_subset key hkey
  have hvalue : key.valueRefusal? value = none := by
    rwa [SettingKey.refusal?, SettingKey.ofName?_name hall] at haccepted
  have hbefore : settings disk environment = .ok ⟨none, environment⟩ := by
    rw [settings, hmissing]
    rfl
  have hend : ∀ c ∈ stripEnd value, Text.isLineBoundary c = false := by
    intro c hc
    obtain ⟨v, hv, -⟩ := Text.exists_stripEnd value
    exact hline c (hv ▸ List.mem_append_left v hc)
  have hover := over_written hall hend (SettingKey.plain_of_accepted hkey hvalue) environment
  obtain ⟨changed, hstored, -, hafter⟩ := exists_storeSetting hbefore key.name value
  obtain ⟨v, hv, htaken⟩ := hover.taken_eq hkey hvalue hline base default
  exact ⟨changed, _, v, hstored, hafter, hv, htaken⟩

/-- A word with blanks around it is honoured, and nothing is warned about. -/
theorem honoured_of_accepted_word :
    SettingKey.refusal? "TEXMD_EXPAND_MACROS" " Off " = none ∧
      ∃ changed s, storeSetting ⟨[]⟩ "TEXMD_EXPAND_MACROS" " Off " = .ok changed ∧
        settings changed [] = .ok s ∧
        s.taken .default 8770 (.flag .expandMacros) = ⟨.bool false, []⟩ := by
  have haccepted : SettingKey.refusal? "TEXMD_EXPAND_MACROS" " Off " = none := by decide
  have hplain : (" Off " : Text).all fun c => Text.isLineBoundary c == false := by decide
  have hline : ∀ c ∈ (" Off " : Text), Text.isLineBoundary c = false := fun c hc =>
    beq_iff_eq.mp (List.all_eq_true.mp hplain c hc)
  obtain ⟨⟨changed, s, v, hstored, hafter, hv, htaken⟩, -⟩ :=
    @honoured_of_accepted ⟨[]⟩ [] (.flag .expandMacros) " Off " rfl (by decide) hline haccepted
      .default 8770
  have hvalue : v = .bool false := Option.some.inj (hv.symm.trans rfl)
  have hheard : Heard (.flag .expandMacros) " Off " := by decide
  subst hvalue
  exact ⟨haccepted, changed, s, hstored, hafter, htaken.trans (if_pos hheard)⟩

/-- Behind a unit separator an accepted port is not used, and an accepted label base is passed
    over with a warning. -/
theorem unitSeparator_ignored :
    (SettingKey.refusal? "TEXMD_PORT" "\x1f8080" = none ∧
      SettingKey.tcpPort.value? (strip "\x1f8080") = some (.int 8080) ∧
      ∃ changed s, storeSetting ⟨[]⟩ "TEXMD_PORT" "\x1f8080" = .ok changed ∧
        settings changed [] = .ok s ∧ s.tcpPort 8770 = 8770) ∧
    (SettingKey.refusal? "TEXMD_LABEL_BASE" "\x1f5" = none ∧
      SettingKey.labelBase.value? (strip "\x1f5") = some (.int 5) ∧
      ∃ changed s, storeSetting ⟨[]⟩ "TEXMD_LABEL_BASE" "\x1f5" = .ok changed ∧
        settings changed [] = .ok s ∧ (s.loadConfig .default).config.labelBase = 1 ∧
        (s.loadConfig .default).warnings =
          ["Ignoring TEXMD_LABEL_BASE='\\x1f5' (expected an integer)".toList]) := by
  refine ⟨⟨by decide, rfl, _, _, rfl, rfl, ?_⟩, by decide, rfl, _, _, rfl, rfl, ?_, ?_⟩
  · decide
  · decide
  · decide

end Command

end TexMark
