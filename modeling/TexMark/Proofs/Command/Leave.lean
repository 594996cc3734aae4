/-
  TexMark/Proofs/Command/Leave.lean
  =================================
  **No file is written without leave.**  Most plans write nothing (`Plan.Harmless`), and their runs
  leave the disk as it is.  The others write one file and then confirm it, and do nothing behind
  that: a setting into the settings file, or the result of a conversion to the output that was
  asked for (`run_cases`).  A conversion writes with `Leave` only, and its output, unless one is
  named, is a neighbour of the source (`outputOf_spec`).

  A host can stop a write in two places, so that a run that crashes may have written (`Writes`):
  the encoding may complain about the text when the file has been emptied already, and the console
  may complain about the confirmation when all is written.  `leave_of_run` says what follows for
  the files of the disk.
-/
import TexMark.Command.Run
import TexMark.Proofs.Files

namespace TexMark.Command

variable {host : Host} {disk : Disk} {environment : Table Text} {args : List Text}
  {answer : Option Bool}

/-! ### What a run is asked to do -/

/-- The arguments ask for the conversion of one document. -/
def Converts (args : List Text) (operand : Text) (a : Arguments) : Prop :=
  ∃ rest, args = Subcommand.convert.name :: rest ∧ Arguments.read rest = .ok a ∧
    a.operands = [operand]

/-- The arguments ask for a setting to be stored. -/
def Sets (args : List Text) (name value : Text) : Prop :=
  ∃ rest a, args = Subcommand.config.name :: rest ∧ Arguments.read rest = .ok a ∧
    a.operands = ["set".toList, name, value]

/-- The arguments that store a value under a key. -/
def storing (key value : Text) : List Text := [Subcommand.config.name, "set".toList, key, value]

/-- The result of a conversion, if the document and the settings can be read. -/
def conversion (disk : Disk) (environment : Table Text) (operand : Text) (a : Arguments) :
    Except FileFault Conversion.Result := do
  let source ← disk.readText (Path.ofText operand)
  let settings ← settings disk environment
  return Conversion.transform
    (.ofConfig (settings.loadConfig Config.default).config a.direction) source

/-- What gives a conversion **leave** to write its output. -/
inductive Leave (disk : Disk) (answer : Option Bool) (a : Arguments) (output : Path)
    (result : Conversion.Result) (o : Outcome) : Prop where
  /-- It was told to write in any case. -/
  | requested (yes : a.yes = true)
  /-- It has asked, and was told to write. -/
  | answered (asked : o.questions ≠ []) (yes : answer = some true)
  /-- There is nothing to report and nothing to overwrite. -/
  | harmless (clean : result.diagnostics = []) (new : disk.exists? output = false)

/-- A run **writes** a text and confirms it. -/
inductive Writes (host : Host) (disk : Disk) (path : Path) (t : Text) (confirmation : Shown)
    (o : Outcome) : Prop where
  | confirmed (hencoded : host.unencoded? t = none) (hwritten : disk.writeText path t = .ok o.disk)
      (hshown : host.unshown? confirmation = none) (hending : o.ending = .exit 0)
  /-- The text is written, but the console complains about the confirmation. -/
  | unconfirmed {complaint : Text} (hencoded : host.unencoded? t = none)
      (hwritten : disk.writeText path t = .ok o.disk)
      (hcomplaint : host.unshown? confirmation = some complaint)
      (hending : o.ending = .crash (.console complaint))
  /-- The encoding complains about the text, and the file is empty. -/
  | emptied {complaint : Text} (hcomplaint : host.unencoded? t = some complaint)
      (hwritten : disk.writeText path [] = .ok o.disk)
      (hending : o.ending = .crash (.file (.unencodable complaint)))

/-! ### Writes -/

namespace Writes

variable {path : Path} {t : Text} {confirmation : Shown} {o : Outcome}

/-- The file that is written holds the text, or nothing if the encoding complains. -/
theorem alike (h : Writes host disk path t confirmation o) :
    ∃ place, disk.LeadsTo path place ∧ disk.Alike place o.disk ∧
      o.disk.nodeAt? place =
        some (.file (.text (if host.unencoded? t = none then t else []))) := by
  cases h with
  | confirmed hencoded hwritten =>
    rw [if_pos hencoded]
    exact Disk.alike_of_writeText hwritten
  | unconfirmed hencoded hwritten =>
    rw [if_pos hencoded]
    exact Disk.alike_of_writeText hwritten
  | emptied hcomplaint hwritten =>
    rw [if_neg (by simp [hcomplaint])]
    exact Disk.alike_of_writeText hwritten

/-- A run that has written ends well, or there was a complaint. -/
theorem ending_or (h : Writes host disk path t confirmation o) :
    o.ending = .exit 0 ∨ (∃ cause, o.ending = .crash cause) ∧
      (host.unshown? confirmation ≠ none ∨ host.unencoded? t ≠ none) := by
  cases h with
  | confirmed _ _ _ hending => exact .inl hending
  | unconfirmed _ _ hcomplaint hending =>
    exact .inr ⟨⟨_, hending⟩, .inl (by simp [hcomplaint])⟩
  | emptied hcomplaint _ hending => exact .inr ⟨⟨_, hending⟩, .inr (by simp [hcomplaint])⟩

/-- What has been asked and shown before a write does not matter to it. -/
theorem congr {o' : Outcome} (h : Writes host disk path t confirmation o)
    (hdisk : o'.disk = o.disk) (hsame : o'.ending = o.ending) :
    Writes host disk path t confirmation o' := by
  cases h with
  | confirmed hencoded hwritten hshown hending =>
    exact .confirmed hencoded (hdisk ▸ hwritten) hshown (hsame.trans hending)
  | unconfirmed hencoded hwritten hcomplaint hending =>
    exact .unconfirmed hencoded (hdisk ▸ hwritten) hcomplaint (hsame.trans hending)
  | emptied hcomplaint hwritten hending =>
    exact .emptied hcomplaint (hdisk ▸ hwritten) (hsame.trans hending)

end Writes

/-- Writing a file and confirming it reaches no file, or it writes. -/
theorem run_write_close (host : Host) (answer : Option Bool) (disk : Disk) (path : Path) (t : Text)
    (s : Shown) :
    let o := (Plan.write path t (.close s 0)).run host answer disk
    o.disk = disk ∨ Writes host disk path t s o := by
  intro o
  rcases disk.save_cases host.unencoded? path t with
    ⟨fault, hsave⟩ | ⟨hencoded, changed, hwritten, hsave⟩ |
      ⟨complaint, hcomplaint, emptied, hwritten, hsave⟩
  · have ho : o = ⟨[], [], [], disk, .crash (.file fault)⟩ := by
      simp only [o, Plan.run, hsave]
    exact .inl (congrArg Outcome.disk ho)
  · cases hshown : host.unshown? s with
    | none =>
      have ho : o = ⟨[s], [], [], changed, .exit 0⟩ := by
        simp only [o, Plan.close, Plan.run, hsave, hshown]
      refine .inr (.confirmed hencoded ?_ hshown (congrArg Outcome.ending ho))
      rw [hwritten, ho]
    | some complaint =>
      have ho : o = ⟨[], [], [], changed, .crash (.console complaint)⟩ := by
        simp only [o, Plan.close, Plan.run, hsave, hshown]
      refine .inr (.unconfirmed hencoded ?_ hshown (congrArg Outcome.ending ho))
      rw [hwritten, ho]
  · have ho : o = ⟨[], [], [], emptied, .crash (.file (.unencodable complaint))⟩ := by
      simp only [o, Plan.run, hsave]
    refine .inr (.emptied hcomplaint ?_ (congrArg Outcome.ending ho))
    rw [hwritten, ho]

/-! ### Plans without writes -/

/-- No file is written, whatever is answered. -/
inductive Plan.Harmless : Plan → Prop where
  | finish (ending : Ending) : Harmless (.finish ending)
  | warn {rest : Plan} (warnings : List Text) (h : Harmless rest) : Harmless (.warn warnings rest)
  | tell {rest : Plan} (s : Shown) (h : Harmless rest) : Harmless (.tell s rest)
  | ask {rest : Option Bool → Plan} (question : Text) (h : ∀ answer, Harmless (rest answer)) :
      Harmless (.ask question rest)

namespace Plan

/-- **A plan without writes leaves the disk as it is**, wherever the host stops it. -/
theorem Harmless.disk_run {p : Plan} (h : p.Harmless) (host : Host) (answer : Option Bool)
    (disk : Disk) : (p.run host answer disk).disk = disk := by
  induction h with
  | finish ending => rfl
  | warn warnings _ ih => exact ih
  | tell s _ ih =>
    rw [run]
    split
    · rfl
    · exact ih
  | ask question _ ih =>
    rw [run]
    split
    · rfl
    · exact ih answer

theorem harmless_close (s : Shown) (code : Nat) : (close s code).Harmless := .tell s (.finish _)

theorem harmless_crash (cause : Crash) : (crash cause).Harmless := .finish _

end Plan

open Plan (harmless_close harmless_crash)

theorem harmless_unreadable (operand : Text) (fault : FileFault) :
    (unreadable operand fault).Harmless := by
  unfold unreadable
  split
  · exact harmless_crash _
  · exact harmless_close _ _

theorem harmless_check (disk : Disk) (environment : Table Text) (operand : Text) (a : Arguments) :
    (check disk environment operand a).Harmless := by
  unfold check
  split
  · exact harmless_unreadable _ _
  · exact harmless_crash _
  · exact .warn _ (harmless_close _ _)

theorem harmless_showConfig (disk : Disk) (environment : Table Text) :
    (showConfig disk environment).Harmless := by
  unfold showConfig
  split
  · exact harmless_crash _
  · exact .warn _ (harmless_close _ _)

theorem harmless_getSetting (disk : Disk) (environment : Table Text) (name : Text) :
    (getSetting disk environment name).Harmless := by
  unfold getSetting
  split
  · exact harmless_crash _
  · split
    · exact harmless_close _ _
    · exact harmless_close _ _

theorem harmless_help : help.Harmless := by
  unfold help
  induction usage with
  | nil => exact .finish _
  | cons s _ ih => exact .tell s ih

/-! ### What a run does -/

/-- The disk is as it was, or a setting has been written into the settings file. -/
theorem run_setSetting_cases (host : Host) (answer : Option Bool) (disk : Disk)
    (name value : Text) :
    let o := (setSetting disk name value).run host answer disk
    o.disk = disk ∨ ∃ content?, settingsContent disk = .ok content? ∧
      Writes host disk settingsPath (SettingsFile.write content? name value)
        (stored name value) o := by
  intro o
  cases hrefusal : SettingKey.refusal? name value with
  | some refusal =>
    left
    simp only [o, setSetting, hrefusal]
    exact (harmless_close _ _).disk_run host answer disk
  | none =>
    cases hcontent : settingsContent disk with
    | error fault =>
      left
      simp only [o, setSetting, hrefusal, hcontent]
      exact (harmless_crash _).disk_run host answer disk
    | ok content? =>
      simp only [o, setSetting, hrefusal, hcontent]
      exact (run_write_close host answer disk _ _ _).imp id fun h => ⟨content?, rfl, h⟩

theorem run_config_cases (host : Host) (answer : Option Bool) (disk : Disk)
    (environment : Table Text) (operands : List Text) :
    let o := (config disk environment operands).run host answer disk
    o.disk = disk ∨ ∃ name value, operands = ["set".toList, name, value] ∧
      ∃ content?, settingsContent disk = .ok content? ∧
        Writes host disk settingsPath (SettingsFile.write content? (Text.upper name) value)
          (stored (Text.upper name) value) o := by
  have hmisuse : config.misuse.Harmless := harmless_close _ _
  intro o
  unfold o config
  split
  · exact .inl ((harmless_showConfig disk environment).disk_run host answer disk)
  · rename_i action name value
    split
    · rename_i hset
      subst hset
      exact (run_setSetting_cases host answer disk (Text.upper name) value).imp id
        fun h => ⟨name, value, rfl, h⟩
    · exact .inl (hmisuse.disk_run host answer disk)
  · split
    · exact .inl ((harmless_getSetting disk environment _).disk_run host answer disk)
    · exact .inl (hmisuse.disk_run host answer disk)
  · exact .inl (hmisuse.disk_run host answer disk)

/-- Delivering a result leaves the disk as it is, or writes with leave. -/
theorem run_deliver_cases (host : Host) (answer : Option Bool) (disk : Disk) (a : Arguments)
    (output : Path) (result : Conversion.Result) :
    let o := (deliver disk a output result).run host answer disk
    o.disk = disk ∨ (Writes host disk output result.text (wrote output) o ∧
      Leave disk answer a output result o) := by
  intro o
  by_cases hask : (!a.yes && (!result.diagnostics.isEmpty || disk.exists? output)) = true
  · simp only [o, deliver, hask, if_true, Plan.run]
    split
    · exact .inl rfl
    · cases answer with
      | none => exact .inl ((harmless_close _ _).disk_run host none disk)
      | some yes =>
        cases yes with
        | false => exact .inl ((harmless_close _ _).disk_run host (some false) disk)
        | true =>
          refine (run_write_close host (some true) disk output result.text (wrote output)).imp
            id fun h => ⟨h.congr rfl rfl, .answered (List.cons_ne_nil _ _) rfl⟩
  · simp only [o, deliver, hask]
    refine (run_write_close host answer disk output result.text (wrote output)).imp id
      fun h => ⟨h, ?_⟩
    simp only [Bool.and_eq_true, Bool.not_eq_true', Bool.or_eq_true, not_and, not_or] at hask
    cases hyes : a.yes with
    | true => exact .requested hyes
    | false =>
      obtain ⟨hclean, hnew⟩ := hask hyes
      exact .harmless (by simpa using hclean) (by simpa using hnew)

theorem run_convert_cases (host : Host) (answer : Option Bool) (disk : Disk)
    (environment : Table Text) (operand : Text) (a : Arguments) :
    let o := (convert disk environment operand a).run host answer disk
    o.disk = disk ∨ ∃ output result, conversion disk environment operand a = .ok result ∧
      outputOf operand a = .ok output ∧ Writes host disk output result.text (wrote output) o ∧
        Leave disk answer a output result o := by
  intro o
  cases hsource : disk.readText (Path.ofText operand) with
  | error fault =>
    left
    simp only [o, convert, hsource]
    exact (harmless_unreadable operand fault).disk_run host answer disk
  | ok source =>
    cases hsettings : settings disk environment with
    | error fault =>
      left
      simp only [o, convert, hsource, hsettings]
      exact (harmless_crash _).disk_run host answer disk
    | ok settings =>
      let result := Conversion.transform
        (.ofConfig (settings.loadConfig Config.default).config a.direction) source
      have hresult : conversion disk environment operand a = .ok result := by
        simp only [conversion, hsource, hsettings]
        rfl
      simp only [o, convert, hsource, hsettings, Plan.run]
      split
      · exact .inl rfl
      · cases houtput : outputOf operand a with
        | error e => exact .inl ((harmless_crash (.path e)).disk_run host answer disk)
        | ok output =>
          refine (run_deliver_cases host answer disk a output result).imp id ?_
          rintro ⟨hwrites, hleave⟩
          refine ⟨output, result, hresult, rfl, hwrites.congr rfl rfl, ?_⟩
          cases hleave with
          | requested hyes => exact .requested hyes
          | answered hasked hyes => exact .answered hasked hyes
          | harmless hclean hnew => exact .harmless hclean hnew

theorem name_of_ofName? {t : Text} {s : Subcommand} (h : Subcommand.ofName? t = some s) :
    t = s.name := by
  have hname := List.find?_some h
  exact (beq_iff_eq.mp hname).symm

/-- A run leaves the disk as it is, or it writes a setting, or the result of a conversion. -/
theorem run_cases (host : Host) (disk : Disk) (environment : Table Text) (args : List Text)
    (answer : Option Bool) :
    let o := run host disk environment args answer
    o.disk = disk ∨
      (∃ name value content?, Sets args name value ∧ settingsContent disk = .ok content? ∧
        Writes host disk settingsPath (SettingsFile.write content? (Text.upper name) value)
          (stored (Text.upper name) value) o) ∨
      ∃ operand a output result, Converts args operand a ∧
        conversion disk environment operand a = .ok result ∧ outputOf operand a = .ok output ∧
          Writes host disk output result.text (wrote output) o ∧
            Leave disk answer a output result o := by
  intro o
  unfold o run plan
  split
  · exact .inl (harmless_help.disk_run host answer disk)
  · rename_i first rest
    split
    · exact .inl (harmless_help.disk_run host answer disk)
    · cases hsubcommand : Subcommand.ofName? first with
      | none => exact .inl ((harmless_close _ _).disk_run host answer disk)
      | some s =>
        have hname := name_of_ofName? hsubcommand
        cases hread : Arguments.read rest with
        | error e => exact .inl ((harmless_close _ _).disk_run host answer disk)
        | ok a =>
          dsimp only
          unfold dispatch
          split
          · refine (run_config_cases host answer disk environment a.operands).imp id ?_
            rintro ⟨name, value, hoperands, content?, hcontent, hwrites⟩
            exact .inl ⟨name, value, content?, ⟨rest, a, by rw [hname], hread, hoperands⟩,
              hcontent, hwrites⟩
          · rename_i operand hoperands
            refine (run_convert_cases host answer disk environment operand a).imp id ?_
            rintro ⟨output, result, hresult, houtput, hwrites, hleave⟩
            exact .inr ⟨operand, a, output, result, ⟨rest, by rw [hname], hread, hoperands⟩,
              hresult, houtput, hwrites, hleave⟩
          · exact .inl ((harmless_check disk environment _ a).disk_run host answer disk)
          · exact .inl ((harmless_close _ _).disk_run host answer disk)

/-! ### Outputs -/

/-- The place of the settings file. -/
def settingsPlace : Place := [".env".toList]

theorem eq_settingsPlace {place : Place} (h : disk.LeadsTo settingsPath place) :
    place = settingsPlace := by
  obtain ⟨dirs, name, directory, hnames, hdirectory, rfl, -⟩ := h.exists_directory
  have hsingle : [] ++ [".env".toList] = dirs ++ [name] := hnames
  obtain ⟨rfl, hname⟩ := List.append_inj' hsingle rfl
  cases hdirectory
  exact hname.symm

/-- The output that no one named is another path than the source, in the same directory, and
    leads to another place there. -/
theorem outputOf_spec {operand : Text} {a : Arguments} {output : Path}
    (hunnamed : a.output?.filter (fun o => !o.isEmpty) = none)
    (h : outputOf operand a = .ok output) :
    let source := Path.ofText operand
    output ≠ source ∧ output.slashes = source.slashes ∧
      output.names.dropLast = source.names.dropLast ∧
      ∀ read written : Place, disk.LeadsTo source read → disk.LeadsTo output written →
        written ≠ read ∧ written.dropLast = read.dropLast := by
  intro source
  rw [outputOf, hunnamed] at h
  obtain ⟨dirs, name, name', hnames, hne, rfl⟩ := Path.sibling_spec h
  have hsource : source.names = dirs ++ [name] := hnames
  refine ⟨?_, rfl, by simp [hsource], ?_⟩
  · intro hsame
    have h := congrArg Path.names hsame
    rw [hsource] at h
    exact hne (List.singleton_inj.mp (List.append_cancel_left h))
  · intro read written hread hwritten
    obtain ⟨dirs₁, name₁, directory₁, hnames₁, hdirectory₁, rfl, -⟩ := hread.exists_directory
    obtain ⟨dirs₂, name₂, directory₂, hnames₂, hdirectory₂, rfl, -⟩ := hwritten.exists_directory
    obtain ⟨rfl, hname₁⟩ := List.append_inj' (hsource.symm.trans hnames₁) rfl
    obtain ⟨rfl, hname₂⟩ := List.append_inj' hnames₂ rfl
    -- both start where the source starts, and so arrive in one directory
    have hdirectory : directory₁ = directory₂ := by
      have h : some directory₁ = some directory₂ := hdirectory₁.symm.trans hdirectory₂
      exact Option.some.inj h
    subst hdirectory
    refine ⟨?_, by simp⟩
    intro hsame
    have hlast := List.singleton_inj.mp (List.append_cancel_left hsame)
    rw [← List.singleton_inj.mp hname₁, ← List.singleton_inj.mp hname₂] at hlast
    exact hne hlast

/-! ### Runs -/

/-- **A run writes with leave only.**  For every host, disk, environment, arguments and answer:

    * at most one place of the disk changes;
    * a place other than that of the settings file changes only if the arguments ask for a
      conversion; it is then the place of its output, to which the result is written, and the
      conversion has leave to write it: it was told to write in any case, or has asked and was
      told to, or there is nothing to report and nothing at the output;
    * the output of a conversion that names none is another path than its source, in the same
      directory, and is no other way to the file that is read;
    * a run that ends with a code other than zero leaves the disk as it is, and so does a run that
      crashes, unless it was writing and the console complains about the confirmation, or the
      encoding about the text;
    * a run that asks neither for a conversion nor for a setting to be stored leaves the disk as it
      is. -/
theorem leave_of_run (host : Host) (disk : Disk) (environment : Table Text) (args : List Text)
    (answer : Option Bool) :
    let o := run host disk environment args answer
    (∃ place, disk.Alike place o.disk) ∧
    (∀ place, place ≠ settingsPlace → o.disk.nodeAt? place ≠ disk.nodeAt? place →
      ∃ operand a output result, Converts args operand a ∧
        conversion disk environment operand a = .ok result ∧
        outputOf operand a = .ok output ∧ disk.LeadsTo output place ∧
        Writes host disk output result.text (wrote output) o ∧
        Leave disk answer a output result o) ∧
    (∀ operand a output, Converts args operand a →
      a.output?.filter (fun o => !o.isEmpty) = none → outputOf operand a = .ok output →
      output ≠ Path.ofText operand ∧ output.slashes = (Path.ofText operand).slashes ∧
        output.names.dropLast = (Path.ofText operand).names.dropLast ∧
        ∀ read written : Place, disk.LeadsTo (Path.ofText operand) read →
          disk.LeadsTo output written → written ≠ read ∧ written.dropLast = read.dropLast) ∧
    (∀ code, o.ending = .exit code → code ≠ 0 → o.disk = disk) ∧
    (∀ cause, o.ending = .crash cause → o.disk = disk ∨ ∃ path t confirmation,
      Writes host disk path t confirmation o ∧
        (host.unshown? confirmation ≠ none ∨ host.unencoded? t ≠ none)) ∧
    ((∀ name value, ¬ Sets args name value) → (∀ operand a, ¬ Converts args operand a) →
      o.disk = disk) := by
  intro o
  have hcases := run_cases host disk environment args answer
  have hwrote : o.disk = disk ∨ ∃ path t confirmation, Writes host disk path t confirmation o := by
    rcases hcases with hsame | ⟨_, _, _, -, -, hwrites⟩ | ⟨_, _, _, _, -, -, -, hwrites, -⟩
    · exact .inl hsame
    · exact .inr ⟨_, _, _, hwrites⟩
    · exact .inr ⟨_, _, _, hwrites⟩
  refine ⟨?_, ?_, fun operand a output _ => outputOf_spec, ?_, ?_, ?_⟩
  · rcases hwrote with hsame | ⟨path, t, confirmation, hwrites⟩
    · refine ⟨settingsPlace, fun other _ => ?_⟩
      rw [hsame]
    · obtain ⟨place, -, halike, -⟩ := hwrites.alike
      exact ⟨place, halike⟩
  · intro place hplace hchanged
    rcases hcases with hsame | ⟨_, _, _, -, -, hwrites⟩ |
      ⟨operand, a, output, result, hasked, hresult, houtput, hwrites, hleave⟩
    · exact absurd (congrArg (Disk.nodeAt? · place) hsame) hchanged
    · obtain ⟨written, hleads, halike, -⟩ := hwrites.alike
      rw [eq_settingsPlace hleads] at halike
      exact absurd (halike place hplace) hchanged
    · obtain ⟨written, hleads, halike, -⟩ := hwrites.alike
      have hplace : place = written :=
        Decidable.byContradiction fun hother => hchanged (halike place hother)
      subst hplace
      exact ⟨operand, a, output, result, hasked, hresult, houtput, hleads, hwrites, hleave⟩
  · intro code hending hcode
    rcases hwrote with hsame | ⟨path, t, confirmation, hwrites⟩
    · exact hsame
    · rcases hwrites.ending_or with hwell | ⟨⟨cause, hcrash⟩, -⟩
      · rw [hwell] at hending
        cases hending
        exact absurd rfl hcode
      · rw [hcrash] at hending
        cases hending
  · intro cause hending
    refine hwrote.imp id ?_
    rintro ⟨path, t, confirmation, hwrites⟩
    rcases hwrites.ending_or with hwell | ⟨-, hcomplaint⟩
    · rw [hwell] at hending
      cases hending
    · exact ⟨path, t, confirmation, hwrites, hcomplaint⟩
  · intro hsets hconverts
    rcases hcases with hsame | ⟨name, value, _, h, -⟩ | ⟨operand, a, _, _, h, -⟩
    · exact hsame
    · exact absurd h (hsets name value)
    · exact absurd h (hconverts operand a)

/-- A host that shows, asks and encodes everything. -/
def Host.lenient : Host := ⟨fun _ => none, fun _ => none, fun _ => none⟩

/-- A directory with one document. -/
def oneDocument : Disk := ⟨[(["a.md".toList], .file (.text "x"))]⟩

/-- Asks for the conversion of that document, to be written in any case. -/
def convertDocument : List Text := ["convert".toList, "--yes".toList, "a.md".toList]

theorem converts_convertDocument :
    Converts convertDocument "a.md" ⟨["a.md".toList], false, true, none⟩ :=
  ⟨["--yes".toList, "a.md".toList], rfl, rfl, rfl⟩

theorem leave_of_run_converted :
    let o := run .lenient oneDocument [] convertDocument none
    let place : Place := ["a.converted.md".toList]
    (o.disk.nodeAt? place ≠ oneDocument.nodeAt? place ∧
      ∃ operand a output result, Converts convertDocument operand a ∧
        oneDocument.LeadsTo output place ∧ Leave oneDocument none a output result o) ∧
    (Path.ofText "a.converted.md" ≠ Path.ofText "a.md") ∧
    (run .lenient oneDocument [] ["check".toList] none).disk = oneDocument ∧
    (run .lenient oneDocument [] ["config".toList] none).disk = oneDocument := by
  intro o place
  have hwritten : o.disk.nodeAt? place = some (.file (.text (Conversion.transform
      (.ofConfig Config.default Direction.forward) "x").text)) := rfl
  have hchanged : o.disk.nodeAt? place ≠ oneDocument.nodeAt? place := by
    rw [hwritten]
    exact fun h => by cases h
  obtain ⟨-, hleave, houtput, -⟩ := leave_of_run .lenient oneDocument [] convertDocument none
  obtain ⟨-, -, -, hmisuse, -⟩ := leave_of_run .lenient oneDocument [] ["check".toList] none
  obtain ⟨-, -, -, -, -, hshown⟩ := leave_of_run .lenient oneDocument [] ["config".toList] none
  refine ⟨⟨hchanged, ?_⟩, ?_, hmisuse 1 rfl (by decide), hshown ?_ ?_⟩
  · obtain ⟨operand, a, output, result, hasked, -, -, hleads, -, h⟩ :=
      hleave place (by decide) hchanged
    exact ⟨operand, a, output, result, hasked, hleads, h⟩
  · exact (houtput "a.md" _ _ converts_convertDocument rfl rfl).1
  · rintro name value ⟨rest, a, hargs, hread, hoperands⟩
    obtain rfl : [] = rest := List.tail_eq_of_cons_eq hargs
    cases hread
    cases hoperands
  · rintro operand a ⟨rest, hargs, -⟩
    exact absurd (List.head_eq_of_cons_eq hargs) (by decide)

/-- What an argument holds in the place of the byte 80, which is no text. -/
def strayByte : Char := Char.ofNat 0x10FC80

/-- A host whose console takes a closing mark for a fault if nothing has opened it. -/
def Host.styled : Host where
  unshown?
    | .line t =>
      if Scan.occurs "[/x]".toList.isPrefixOf t then
        some "closing tag '[/x]' doesn't match any open tag"
      else none
    | .sheet _ => none
  unasked? _ := none
  unencoded? _ := none

/-- A host whose encoding has no bytes for what is no text. -/
def Host.encoding : Host :=
  { Host.lenient with
    unencoded? t := if t.contains strayByte then some "surrogates not allowed" else none }

/-- A run that crashes can have changed a file: it has written the settings, or emptied them. -/
theorem crash_behind_write :
    let disk : Disk := ⟨[(settingsPlace, .file (.text "TEXMD_PORT=1\n"))]⟩
    let marked := run .styled disk [] (storing "TEXMD_EXTRA_ENVIRONMENTS" "[/x]") none
    let stray := run .encoding disk [] (storing "TEXMD_EXTRA_ENVIRONMENTS" [strayByte]) none
    (marked.ending = .crash (.console "closing tag '[/x]' doesn't match any open tag") ∧
      marked.disk.nodeAt? settingsPlace =
        some (.file (.text "TEXMD_PORT=1\nTEXMD_EXTRA_ENVIRONMENTS=[/x]\n"))) ∧
    (stray.ending = .crash (.file (.unencodable "surrogates not allowed")) ∧
      stray.disk.nodeAt? settingsPlace = some (.file (.text []))) :=
  ⟨⟨rfl, rfl⟩, rfl, rfl⟩

end TexMark.Command
