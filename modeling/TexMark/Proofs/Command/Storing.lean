/-
  TexMark/Proofs/Command/Storing.lean
  ===================================
  **Storing a setting takes effect.**  Two parts lie between a command line and the value that
  a key gives afterwards.  The arguments have to name the key and the value, and a value that
  begins with a dash does not come through as an operand (`run_storing`, `run_storing_dash`).  And
  where the settings can be read the file is written and can be read again
  (`exists_storeSetting`), so what it gives is what `SettingsFile.write` has made of its lines
  (`get?_written`).  `setting_takes_effect` puts the two together.  It leaves the host a say in two
  things: whether the new content has bytes, and whether the confirmation can be shown.
-/
import TexMark.Proofs.Command.Leave
import TexMark.Proofs.Settings.Storage

namespace TexMark

namespace Command

variable {host : Host} {disk : Disk} {environment : Table Text}

/-! ### The settings file -/

theorem lookUp_settingsPath (disk : Disk) : disk.lookUp settingsPath =
    match disk.nodeAt? settingsPlace with
    | some .directory => .directory
    | some (.file content) => .file settingsPlace content
    | none => .free settingsPlace := by
  have hfollow : disk.lookUp settingsPath = disk.follow settingsPath [] [".env".toList] := rfl
  have hnext : ([] : Place) ++ [".env".toList] = settingsPlace := rfl
  rw [hfollow, Disk.follow, if_neg (by decide), if_neg (by decide), hnext]
  cases disk.nodeAt? settingsPlace with
  | none => rfl
  | some node => cases node <;> rfl

/-- Where settings cannot be read, the settings file cannot. -/
theorem settingsContent_error {fault : FileFault}
    (h : settings disk environment = .error fault) : settingsContent disk = .error fault := by
  unfold settings at h
  cases hcontent : settingsContent disk with
  | error fault' => rw [hcontent] at h; cases h; rfl
  | ok content? => rw [hcontent] at h; cases h

theorem exists_settingsContent {before : Settings}
    (h : settings disk environment = .ok before) :
    ∃ content?, settingsContent disk = .ok content? ∧ before = ⟨content?, environment⟩ := by
  unfold settings at h
  cases hcontent : settingsContent disk with
  | error fault => rw [hcontent] at h; cases h
  | ok content? => rw [hcontent] at h; exact ⟨content?, rfl, (Except.ok.inj h).symm⟩

/-- Where settings can be read, one can be stored, and the file then holds what was written. -/
theorem exists_storeSetting {before : Settings} (h : settings disk environment = .ok before)
    (key value : Text) :
    ∃ changed, storeSetting disk key value = .ok changed ∧
      disk.Alike settingsPlace changed ∧ settings changed environment =
        .ok ⟨some (Text.unifyLineFeeds (SettingsFile.write before.file? key value)),
          before.environment⟩ := by
  obtain ⟨content?, hcontent, rfl⟩ := exists_settingsContent h
  have hstore : storeSetting disk key value =
      disk.writeText settingsPath (SettingsFile.write content? key value) := by
    unfold storeSetting
    rw [hcontent]
    rfl
  obtain ⟨changed, hwritten⟩ : ∃ changed,
      disk.writeText settingsPath (SettingsFile.write content? key value) = .ok changed := by
    have hlookUp := lookUp_settingsPath disk
    unfold Disk.writeText
    split at hlookUp
    · -- a directory in the place of the file could not have been read
      simp [settingsContent, Disk.exists?, Disk.readText, hlookUp, Except.map] at hcontent
    · exact ⟨_, by rw [hlookUp]⟩
    · exact ⟨_, by rw [hlookUp]⟩
  obtain ⟨place, hleads, halike, hnode⟩ := Disk.alike_of_writeText hwritten
  rw [eq_settingsPlace hleads] at halike hnode
  refine ⟨changed, hstore.trans hwritten, halike, ?_⟩
  have hlookUp := lookUp_settingsPath changed
  simp only [hnode] at hlookUp
  simp only [settings, settingsContent, Disk.exists?, Disk.readText, hlookUp]
  rfl

/-! ### Arguments -/

/-- What does not begin with a dash is an operand. -/
theorem readFrom_operand {arg : Text} (h : arg.head? ≠ some '-') (a : Arguments)
    (rest : List Text) :
    Arguments.readFrom a (arg :: rest) =
      Arguments.readFrom { a with operands := a.operands ++ [arg] } rest := by
  have hne : ∀ option : Text, option.head? = some '-' → arg ≠ option := by
    rintro option hoption rfl
    exact h hoption
  rw [Arguments.readFrom.eq_def]
  dsimp only
  rw [if_neg (hne _ rfl), if_neg (not_or.mpr ⟨hne _ rfl, hne _ rfl⟩),
    if_neg (not_or.mpr ⟨hne _ rfl, hne _ rfl⟩), if_neg h]

/-- What begins with a dash is no operand. -/
theorem readFrom_dash {arg : Text} (h : arg.head? = some '-') (a : Arguments) :
    (∃ e, Arguments.readFrom a [arg] = .error e) ∨
      ∃ a', Arguments.readFrom a [arg] = .ok a' ∧ a'.operands = a.operands := by
  rw [Arguments.readFrom.eq_def]
  dsimp only
  split
  · exact .inr ⟨_, rfl, rfl⟩
  · split
    · exact .inr ⟨_, rfl, rfl⟩
    · split
      · exact .inl ⟨_, rfl⟩
      · exact .inl ⟨_, rfl⟩

theorem plan_storing (disk : Disk) (environment : Table Text) (key value : Text) :
    plan disk environment (storing key value) =
      match Arguments.read ["set".toList, key, value] with
      | .error e => .close (red e.message) 1
      | .ok a => config disk environment a.operands := rfl

theorem read_storing {key value : Text} (hkey : key.head? ≠ some '-') :
    Arguments.read ["set".toList, key, value] =
      Arguments.readFrom ⟨["set".toList, key], false, false, none⟩ [value] := by
  rw [Arguments.read, readFrom_operand (by decide), readFrom_operand hkey]
  rfl

theorem run_storing {key value : Text} (hkey : key.head? ≠ some '-')
    (hvalue : value.head? ≠ some '-') (answer : Option Bool) :
    run host disk environment (storing key value) answer =
      (setSetting disk (Text.upper key) value).run host answer disk := by
  rw [run, plan_storing, read_storing hkey, readFrom_operand hvalue]
  rfl

/-- How a run ends that shows one thing more. -/
def Host.closing (host : Host) (s : Shown) (code : Nat) : Ending :=
  match host.unshown? s with
  | none => .exit code
  | some complaint => .crash (.console complaint)

theorem run_close (host : Host) (answer : Option Bool) (disk : Disk) (s : Shown) (code : Nat) :
    ((Plan.close s code).run host answer disk).disk = disk ∧
      ((Plan.close s code).run host answer disk).ending = host.closing s code := by
  simp only [Plan.close, Plan.run, Host.closing]
  cases host.unshown? s with
  | none => exact ⟨rfl, rfl⟩
  | some complaint => exact ⟨rfl, rfl⟩

/-- A value that begins with a dash is read as an option, and then there is none to store. -/
theorem run_storing_dash {key value : Text} (hkey : key.head? ≠ some '-')
    (hvalue : value.head? = some '-') (answer : Option Bool) :
    let o := run host disk environment (storing key value) answer
    o.disk = disk ∧ ∃ message, o.ending = host.closing message 1 := by
  rw [run, plan_storing, read_storing hkey]
  rcases readFrom_dash hvalue ⟨["set".toList, key], false, false, none⟩ with
    ⟨e, he⟩ | ⟨a, ha, hoperands⟩
  · rw [he]
    obtain ⟨hdisk, hending⟩ := run_close host answer disk (red e.message) 1
    exact ⟨hdisk, _, hending⟩
  · have hoperands : a.operands = ["set".toList, key] := hoperands
    have hmisuse : config disk environment ["set".toList, key] = config.misuse := rfl
    obtain ⟨hdisk, hending⟩ := run_close host answer disk _ 1
    rw [ha]
    dsimp only
    rw [hoperands, hmisuse]
    exact ⟨hdisk, _, hending⟩

/-! ### Effects -/

/-- A setting that has been stored is read again, and the entries of the other keys are as they
    were. -/
theorem get?_written {key : SettingKey} (hkey : key ∈ SettingKey.all) {value : Text}
    (hvalue : ∀ c ∈ Text.stripEnd value, Text.isLineBoundary c = false) (before : Settings) :
    let after : Settings := ⟨some (Text.unifyLineFeeds
      (SettingsFile.write before.file? key.name value)), before.environment⟩
    (∀ other ≠ key.name, after.fileEntries.get? other = before.fileEntries.get? other) ∧
    (¬ SettingsFile.Shadowed key.name (Text.splitLines (before.file?.getD [])) →
      after.get? key.name =
        some (Text.trim SettingsFile.isQuote (Text.stripEnd value))) := by
  intro after
  have hname := SettingKey.isKey_name hkey
  have hafter : after.fileEntries = Table.merge [] ((SettingsFile.linesWith key.name value
      (Text.splitLines (before.file?.getD []))).filterMap SettingsFile.entry?) :=
    SettingsFile.read_write hname hvalue before.file?
  have hbefore : before.fileEntries = Table.merge []
      ((Text.splitLines (before.file?.getD [])).filterMap SettingsFile.entry?) := by
    unfold Settings.fileEntries
    cases before.file? <;> rfl
  constructor
  · intro other hother
    rw [hafter, hbefore, Table.get?_merge_last, Table.get?_merge_last,
      SettingsFile.filter_linesWith hname hother]
  · intro hseen
    have hentry : after.fileEntries.get? key.name =
        some (Text.trim SettingsFile.isQuote (Text.stripEnd value)) := by
      rw [hafter, Table.get?_merge_last, SettingsFile.getLast?_linesWith hname value hseen]
      rfl
    rw [Settings.get?, hentry]

/-- Storing an accepted setting where the settings can be read changes the settings file only.
    If the new content has bytes, the file can be read again, and the confirmation is shown. -/
theorem run_setSetting {key value : Text} (haccepted : SettingKey.refusal? key value = none)
    {before : Settings} (hsettings : settings disk environment = .ok before)
    (host : Host) (answer : Option Bool) :
    let o := (setSetting disk key value).run host answer disk
    let written := SettingsFile.write before.file? key value
    disk.Alike settingsPlace o.disk ∧
    (host.unencoded? written = none →
      o.ending = host.closing (stored key value) 0 ∧
        settings o.disk environment =
          .ok ⟨some (Text.unifyLineFeeds written), before.environment⟩) := by
  intro o written
  obtain ⟨changed, hstored, halike, hafter⟩ := exists_storeSetting hsettings key value
  obtain ⟨content?, hcontent, rfl⟩ := exists_settingsContent hsettings
  have hwritten : disk.writeText settingsPath written = .ok changed := by
    rw [← hstored, storeSetting, hcontent]
    rfl
  have ho : o = (Plan.write settingsPath written (.close (stored key value) 0)).run host answer
      disk := by
    simp only [o, setSetting, haccepted, hcontent]
    rfl
  constructor
  · have hcases := run_write_close host answer disk settingsPath written (stored key value)
    rw [ho]
    rcases hcases with hsame | hwrites
    · intro other _
      rw [hsame]
    · obtain ⟨place, hleads, halike, -⟩ := hwrites.alike
      rwa [eq_settingsPlace hleads] at halike
  · intro hencoded
    have hclose : o = (Plan.close (stored key value) 0).run host answer changed := by
      rw [ho, Plan.run, Disk.save_eq_of_encoded hencoded hwritten]
    obtain ⟨hdisk, hending⟩ := run_close host answer changed (stored key value) 0
    rw [hclose, hdisk]
    exact ⟨hending, hafter⟩

/-- **A setting takes effect, and on nothing else.**  For every host, every disk and environment,
    and every key with a value that can be stored under it:

    * a value that begins with a dash is read as an option: the disk stays as it is, and the run
      does not end well;
    * otherwise, if the settings cannot be read, the run crashes and the disk stays as it is;
    * otherwise no place changes but that of the settings file.  If the new content has bytes, the
      settings can be read again, and the run ends well if the confirmation can be shown.  If the
      value is one line, up to the blanks at its end, then the entries of all other keys in the
      file are as they were, and the key has the value without these blanks and then without the
      quotes around it, unless it is shadowed. -/
theorem setting_takes_effect (host : Host) (disk : Disk) (environment : Table Text)
    {key value : Text} (haccepted : SettingKey.refusal? key value = none)
    (answer : Option Bool) :
    let o := run host disk environment (storing key value) answer
    (value.head? = some '-' →
      o.disk = disk ∧ ∃ message, o.ending = host.closing message 1) ∧
    (value.head? ≠ some '-' →
      (∀ fault, settings disk environment = .error fault →
        o.ending = .crash (.file fault) ∧ o.disk = disk) ∧
      ∀ before, settings disk environment = .ok before →
        disk.Alike settingsPlace o.disk ∧
        (host.unencoded? (SettingsFile.write before.file? key value) = none →
          o.ending = host.closing (stored key value) 0 ∧
          ∃ after, settings o.disk environment = .ok after ∧
            ((∀ c ∈ Text.stripEnd value, Text.isLineBoundary c = false) →
              (∀ other ≠ key, after.fileEntries.get? other = before.fileEntries.get? other) ∧
              (¬ SettingsFile.Shadowed key (Text.splitLines (before.file?.getD [])) →
                after.get? key =
                  some (Text.trim SettingsFile.isQuote (Text.stripEnd value)))))) := by
  intro o
  obtain ⟨k, hk, rfl⟩ : ∃ k ∈ SettingKey.all, k.name = key := by
    unfold SettingKey.refusal? at haccepted
    cases hname : SettingKey.ofName? key with
    | none => rw [hname] at haccepted; cases haccepted
    | some k => exact ⟨k, SettingKey.name_of_ofName? hname⟩
  obtain ⟨hhead, -, hupper⟩ := SettingKey.name_spec hk
  have hoperand : k.name.head? ≠ some '-' := by
    rw [hhead]
    decide
  refine ⟨fun hdash => run_storing_dash hoperand hdash answer, fun hvalue => ?_⟩
  have ho : o = (setSetting disk k.name value).run host answer disk := by
    conv_rhs => rw [← hupper]
    exact run_storing hoperand hvalue answer
  constructor
  · intro fault hsettings
    have hcrashed : o = ⟨[], [], [], disk, .crash (.file fault)⟩ := by
      rw [ho, setSetting, haccepted]
      simp only [settingsContent_error hsettings]
      rfl
    rw [hcrashed]
    exact ⟨rfl, rfl⟩
  · intro before hsettings
    obtain ⟨halike, hencoded⟩ := run_setSetting haccepted hsettings host answer
    rw [← ho] at halike hencoded
    refine ⟨halike, fun hbytes => ?_⟩
    obtain ⟨hending, hafter⟩ := hencoded hbytes
    exact ⟨hending, _, hafter, fun hplain => get?_written hk hplain before⟩

/-- A directory with settings, where one key has two lines. -/
def someSettings : Disk := ⟨[(settingsPlace, .file (.text (Text.unlines ["# local",
  "TEXMD_WORKERS='3'", "  TEXMD_EXTRA_ENVIRONMENTS=old", "TEXMD_EXTRA_ENVIRONMENTS=older"])))]⟩

theorem setting_takes_effect_quoted :
    let o := run .lenient someSettings []
      (storing "TEXMD_EXTRA_ENVIRONMENTS" "\"tikzcd, proofbox\" ") none
    o.ending = .exit 0 ∧ ∃ after, settings o.disk [] = .ok after ∧
      after.fileEntries.get? "TEXMD_WORKERS" = some "3" ∧
      after.get? "TEXMD_EXTRA_ENVIRONMENTS" = some "tikzcd, proofbox" := by
  intro o
  have haccepted : SettingKey.refusal? "TEXMD_EXTRA_ENVIRONMENTS" "\"tikzcd, proofbox\" " = none :=
    by decide
  obtain ⟨-, hstored⟩ := setting_takes_effect .lenient someSettings [] haccepted none
  obtain ⟨-, hread⟩ := hstored (by decide)
  obtain ⟨-, hencoded⟩ := hread _ rfl
  obtain ⟨hending, after, hafter, heffect⟩ := hencoded rfl
  have hplain : (Text.stripEnd "\"tikzcd, proofbox\" ".toList).all
      fun c => Text.isLineBoundary c == false := by decide
  obtain ⟨hothers, hown⟩ := heffect fun c hc => beq_iff_eq.mp (List.all_eq_true.mp hplain c hc)
  refine ⟨hending, after, hafter, ?_, hown (by decide)⟩
  rw [hothers "TEXMD_WORKERS" (by decide)]
  decide

/-- What a key gives behind the command that stores a value under another, or under the same. -/
def readBehind (disk : Disk) (key value other : Text) : Except FileFault (Option Text) :=
  (settings (run .lenient disk [] (storing key value) none).disk []).map (·.get? other)

/-- A key with two lines, the second one indented. -/
def shadowedPort : Disk :=
  ⟨[(settingsPlace, .file (.text (Text.unlines ["TEXMD_PORT=1", "  TEXMD_PORT=2"])))]⟩

/-- A settings file that holds no text. -/
def brokenSettings : Disk := ⟨[(settingsPlace, .file (.bytes [0xFF]))]⟩

/-- A value can be read as an option, can be more than one line, and can be shadowed, and the
    settings file need not hold a text. -/
theorem setting_without_effect :
    (SettingKey.refusal? "TEXMD_LABEL_BASE" "-1" = none ∧
      (run .lenient shadowedPort [] (storing "TEXMD_LABEL_BASE" "-1") none).ending = .exit 1 ∧
      readBehind shadowedPort "TEXMD_LABEL_BASE" "-1" "TEXMD_LABEL_BASE" = .ok none) ∧
    (SettingKey.refusal? "TEXMD_EXTRA_ENVIRONMENTS" "a\nTEXMD_PORT=7" = none ∧
      readBehind shadowedPort "TEXMD_EXTRA_ENVIRONMENTS" "a\nTEXMD_PORT=7"
        "TEXMD_EXTRA_ENVIRONMENTS" = .ok (some "a") ∧
      (settings shadowedPort []).map (·.get? "TEXMD_PORT") = .ok (some "2") ∧
      readBehind shadowedPort "TEXMD_EXTRA_ENVIRONMENTS" "a\nTEXMD_PORT=7" "TEXMD_PORT" =
        .ok (some "7")) ∧
    (SettingKey.refusal? "TEXMD_PORT" "9000" = none ∧
      readBehind shadowedPort "TEXMD_PORT" "9000" "TEXMD_PORT" = .ok (some "2") ∧
      (run .lenient brokenSettings [] (storing "TEXMD_PORT" "9000") none).ending ≠ .exit 0) := by
  refine ⟨⟨?_, ?_, rfl⟩, ⟨?_, rfl, rfl, rfl⟩, ?_, rfl, ?_⟩
  all_goals decide

end Command

end TexMark
