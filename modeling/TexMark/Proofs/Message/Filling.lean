/-
  TexMark/Proofs/Message/Filling.lean
  ===================================
  **Messages that are filled.**  A message is written in parts: texts without percent signs, and
  directives for a value as it is (`%s`), for its quoted form (`%r`) and for an integer (`%d`).
  Filled with as many values as it has directives, it is its texts with the values between them
  (`fill_source`).  The induction is on the parts; between two of them the place in the message
  has moved on, but only refusals tell places.

  The lines that the service logs at its start and end are messages of this kind
  (`logged_of_session`), and so are the warnings about settings.
-/
import TexMark.Message.Fill
import TexMark.Proofs.Settings.Loading
import TexMark.Service.Log

namespace TexMark

namespace Message

/-! ### Parts of messages -/

/-- A part of a message. -/
inductive Part where
  | plain (t : Text)
  /-- A value as it is. -/
  | text
  /-- The quoted form of a value. -/
  | quoted
  /-- An integer. -/
  | whole
deriving DecidableEq, Repr

def Part.source : Part → Text
  | plain t => t
  | text => "%s"
  | quoted => "%r"
  | whole => "%d"

/-- A message in parts. -/
def source (ps : List Part) : Text := ps.flatMap Part.source

/-- The texts of a message with the values between them, if there are as many values as the
    parts ask for. -/
def written? : List Part → List Json → Option Text
  | [], [] => some []
  | .plain t :: ps, vs => (written? ps vs).map (t ++ ·)
  | .text :: ps, v :: vs => (written? ps vs).map (v.asText ++ ·)
  | .quoted :: ps, v :: vs => (written? ps vs).map (v.shown ++ ·)
  | .whole :: ps, .int n :: vs => (written? ps vs).map (Text.ofInt n ++ ·)
  | _, _ => none

/-- A text of a message has no percent signs. -/
def Part.IsPlain : Part → Prop
  | plain t => '%' ∉ t
  | _ => True

instance : DecidablePred Part.IsPlain
  | .plain t => inferInstanceAs (Decidable ('%' ∉ t))
  | .text => isTrue trivial
  | .quoted => isTrue trivial
  | .whole => isTrue trivial

variable {ps : List Part} {vs : List Json} {t out rest : Text}

/-! ### Reading and writing one part -/

theorem piecesFrom_plain (ht : '%' ∉ t) (place : Nat) (rest : Text) :
    piecesFrom place 0 (t ++ rest) =
      t.map Piece.char ++ piecesFrom (place + t.length) 0 rest := by
  induction t generalizing place with
  | nil => rfl
  | cons c t ih =>
    obtain ⟨hc, ht⟩ := not_or.mp (mt List.mem_cons.mpr ht)
    have hother : (c != '%') = true := bne_iff_ne.mpr (Ne.symm hc)
    rw [List.cons_append, piecesFrom, if_pos hother, ih ht, List.map_cons, List.cons_append,
      List.length_cons, Nat.add_assoc, Nat.add_comm 1]

theorem fillPieces_chars (t : Text) (ps : List Piece) (values : Values) :
    fillPieces (t.map Piece.char ++ ps) values = (fillPieces ps values).map (t ++ ·) := by
  induction t with
  | nil => cases h : fillPieces ps values <;> simp [Except.map, h]
  | cons c t ih =>
    rw [List.map_cons, List.cons_append, fillPieces, ih]
    cases fillPieces ps values <;> rfl

/-- The directive that is a letter and nothing else. -/
def bare (letter : Char) : Directive := ⟨.next, .none, .absent, .absent, some letter⟩

/-- Nothing is asked for but the value. -/
def bareStyle : Style := { Flags.none with width := 0, precision? := none }

theorem padded_bareStyle (t : Text) : bareStyle.padded t = .ok t := by
  have hblanks : bareStyle.width - t.length = 0 := Nat.zero_sub _
  simp only [Style.padded, hblanks]
  rfl

theorem writeWhole_bareStyle (n : Int) : bareStyle.writeWhole n = .ok (Text.ofInt n) := by
  have hdigits : ∀ negative base digits, bareStyle.writeDigits negative base digits =
      bareStyle.padded ((if negative then ['-'] else []) ++ base ++ digits) := by
    intro negative base digits
    simp [Style.writeDigits, bareStyle, Flags.none, maxPrecision, maxFilled]
  rw [Style.writeWhole, hdigits, padded_bareStyle, Text.ofInt]
  by_cases hnegative : n < 0
  · simp [hnegative]
  · simp [hnegative]

theorem fill_bare (letter : Char) (place : Nat) (v : Json) (vs : List Json) :
    (bare letter).fill place (.inOrder (v :: vs)) =
      (bareStyle.write letter place v).map fun t => (t, .inOrder vs) := by
  have hstyle : (bare letter).style none none = bareStyle := rfl
  have hfill : (bare letter).fill place (.inOrder (v :: vs)) = do
      return (← ((bare letter).style none none).write letter place v, .inOrder vs) := rfl
  rw [hfill, hstyle]
  cases bareStyle.write letter place v <;> rfl

theorem fillPieces_bare {letter : Char} {place : Nat} {v : Json}
    (hwrite : bareStyle.write letter place v = .ok t) (ps : List Piece) (vs : List Json) :
    fillPieces (.directive (bare letter) place :: ps) (.inOrder (v :: vs)) =
      (fillPieces ps (.inOrder vs)).map (t ++ ·) := by
  have hfilled : fillPieces (.directive (bare letter) place :: ps) (.inOrder (v :: vs)) = do
      return t ++ (← fillPieces ps (.inOrder vs)) := by
    rw [fillPieces, fill_bare, hwrite]
    rfl
  rw [hfilled]
  cases fillPieces ps (.inOrder vs) <;> rfl

/-- A letter behind a percent sign is a directive of its own. -/
theorem piecesFrom_letter {letter : Char} (hletter : letter ∈ ['s', 'r', 'd']) (place : Nat)
    (rest : Text) :
    piecesFrom place 0 ('%' :: letter :: rest) =
      .directive (bare letter) (place + 1) :: piecesFrom (place + 2) 0 rest := by
  have hread : Directive.read (letter :: rest) = (bare letter, rest) := by
    simp only [List.mem_cons, List.not_mem_nil, or_false] at hletter
    rcases hletter with rfl | rfl | rfl <;> rfl
  have hsize : (letter :: rest).length - rest.length = 1 := Nat.add_sub_cancel_left _ _
  have hother : letter ≠ '%' := by
    rintro rfl
    revert hletter
    decide
  rw [piecesFrom, if_neg (by decide), if_neg (by simpa using hother), hread]
  simp only [hsize]
  rfl

/-! ### Messages -/

/-- What is filled in from any place on. -/
theorem fillPieces_source (hplain : ∀ p ∈ ps, p.IsPlain) (h : written? ps vs = some out)
    (place : Nat) : fillPieces (piecesFrom place 0 (source ps)) (.inOrder vs) = .ok out := by
  fun_induction written? ps vs generalizing out place with
  | case1 =>
    cases h
    rfl
  | case2 t ps vs ih =>
    obtain ⟨later, hlater, rfl⟩ := Option.map_eq_some_iff.mp h
    obtain ⟨ht, hplain⟩ := List.forall_mem_cons.mp hplain
    have hsource : source (.plain t :: ps) = t ++ source ps := rfl
    rw [hsource, piecesFrom_plain ht, fillPieces_chars, ih hplain hlater]
    rfl
  | case3 ps v vs ih =>
    obtain ⟨later, hlater, rfl⟩ := Option.map_eq_some_iff.mp h
    have hsource : source (.text :: ps) = '%' :: 's' :: source ps := rfl
    have hwrite : bareStyle.write 's' (place + 1) v = .ok v.asText := padded_bareStyle _
    rw [hsource, piecesFrom_letter (by decide), fillPieces_bare hwrite,
      ih (List.forall_mem_cons.mp hplain).2 hlater]
    rfl
  | case4 ps v vs ih =>
    obtain ⟨later, hlater, rfl⟩ := Option.map_eq_some_iff.mp h
    have hsource : source (.quoted :: ps) = '%' :: 'r' :: source ps := rfl
    have hwrite : bareStyle.write 'r' (place + 1) v = .ok v.shown := padded_bareStyle _
    rw [hsource, piecesFrom_letter (by decide), fillPieces_bare hwrite,
      ih (List.forall_mem_cons.mp hplain).2 hlater]
    rfl
  | case5 ps n vs ih =>
    obtain ⟨later, hlater, rfl⟩ := Option.map_eq_some_iff.mp h
    have hsource : source (.whole :: ps) = '%' :: 'd' :: source ps := rfl
    have hwrite : bareStyle.write 'd' (place + 1) (.int n) = .ok (Text.ofInt n) :=
      writeWhole_bareStyle n
    rw [hsource, piecesFrom_letter (by decide), fillPieces_bare hwrite,
      ih (List.forall_mem_cons.mp hplain).2 hlater]
    rfl
  | case6 => cases h

/-- Without values there are no directives, and the message is its texts. -/
theorem source_of_written (h : written? ps [] = some out) : source ps = out := by
  induction ps generalizing out with
  | nil =>
    cases h
    rfl
  | cons p ps ih =>
    cases p with
    | plain t =>
      obtain ⟨later, hlater, rfl⟩ := Option.map_eq_some_iff.mp h
      have hsource : source (.plain t :: ps) = t ++ source ps := rfl
      rw [hsource, ih hlater]
    | text => cases h
    | quoted => cases h
    | whole => cases h

/-- **A message is its texts with the values between them.** -/
theorem fill_source (hplain : ∀ p ∈ ps, p.IsPlain) (hobject : ∀ members, vs ≠ [.obj members])
    (h : written? ps vs = some out) : fill (source ps) vs = .ok out := by
  unfold fill
  split
  · rename_i hempty
    obtain rfl := List.isEmpty_iff.mp hempty
    rw [source_of_written h]
  · have hvalues : Values.ofList vs = .inOrder vs := by
      unfold Values.ofList
      split
      · rename_i m ms _
        exact absurd rfl (hobject (m :: ms))
      · rfl
    rw [hvalues]
    exact fillPieces_source hplain h 0

end Message

/-! ### The log of the service -/

namespace Service

open Message (Part source written? fill fill_source)

/-- A message that the service logs at its start or end, in parts, and its values. -/
inductive Logs (s : Settings) : List Part → List Json → Prop where
  | defaults : Logs s
      [.plain "Pipeline defaults: ", .text, .plain " (batch workers=", .whole, .plain ")"]
      [.str (Json.print (sortedJson s.loadService.config.json)), .int s.loadService.workers]
  | starts : Logs s [.plain "texmd service starting on port ", .whole]
      [.int (s.tcpPort Settings.defaultPort)]
  | stops : Logs s [.plain "texmd service stopped"] []
  | ignoredFlag {field : ConfigField} {raw : Text}
      (hraw : s.get? (SettingKey.flag field).name = some raw) :
      Logs s [.plain "Ignoring ", .text, .plain "=", .quoted, .plain " (expected a boolean)"]
        [.str (SettingKey.flag field).name, .str raw]
  | ignoredBase {raw : Text} (hraw : s.get? SettingKey.labelBase.name = some raw) :
      Logs s [.plain "Ignoring TEXMD_LABEL_BASE=", .quoted, .plain " (expected an integer)"]
        [.str raw]
  | ignoredMode {raw : Text} (hraw : s.get? SettingKey.referenceMode.name = some raw) :
      Logs s [.plain "Ignoring TEXMD_REFERENCE_MODE=", .quoted] [.str raw]
  | ignoredWorkers {raw : Text} (hraw : s.get? SettingKey.workers.name = some raw) :
      Logs s [.plain "Ignoring TEXMD_WORKERS=", .quoted] [.str raw]

/-- A text that such a message comes to. -/
def Logged (s : Settings) (t : Text) : Prop :=
  ∃ ps vs, Logs s ps vs ∧ fill (source ps) vs = .ok t

variable {s : Settings} {t : Text}

theorem Logs.logged {ps : List Part} {vs : List Json} (h : Logs s ps vs)
    (hwritten : written? ps vs = some t) : Logged s t := by
  refine ⟨ps, vs, h, fill_source ?_ (fun members hvs => ?_) hwritten⟩
  · cases h <;> decide
  · subst hvs
    cases h

theorem ignoring_append (key : SettingKey) (raw reason : Text) :
    Settings.ignoring key raw ++ reason =
      "Ignoring ".toList ++ (key.name ++ ('=' :: (Text.quoted raw ++ reason))) := by
  have hassoc : ∀ front name value : Text, (front ++ name ++ '=' :: value) ++ reason =
      front ++ (name ++ ('=' :: (value ++ reason))) := by
    simp
  exact hassoc _ _ _

theorem logged_of_complaints {key : SettingKey} {raw : Text} (hraw : s.get? key.name = some raw)
    (h : t ∈ key.complaints raw) : Logged s t := by
  cases key with
  | flag field =>
    obtain rfl := List.mem_singleton.mp h
    rw [ignoring_append, ← List.append_nil " (expected a boolean)".toList]
    exact (Logs.ignoredFlag hraw).logged rfl
  | labelBase =>
    obtain rfl := List.mem_singleton.mp h
    rw [ignoring_append, ← List.append_nil " (expected an integer)".toList]
    exact (Logs.ignoredBase hraw).logged rfl
  | referenceMode =>
    obtain rfl := List.mem_singleton.mp h
    rw [← List.append_nil (Settings.ignoring _ raw), ignoring_append]
    exact (Logs.ignoredMode hraw).logged rfl
  | workers =>
    obtain rfl := List.mem_singleton.mp h
    rw [← List.append_nil (Settings.ignoring _ raw), ignoring_append]
    exact (Logs.ignoredWorkers hraw).logged rfl
  | extraEnvironments => cases h
  | tcpPort => cases h
  | logLevel => cases h

theorem defaultsLine_eq (o : Settings.ServiceOptions) :
    defaultsLine o = "Pipeline defaults: ".toList ++ (Json.print (sortedJson o.config.json) ++
      (" (batch workers=".toList ++ (Text.ofInt o.workers ++ (")".toList ++ [])))) := by
  have hassoc : ∀ front config middle workers back : Text,
      front ++ config ++ middle ++ workers ++ back =
        front ++ (config ++ (middle ++ (workers ++ (back ++ [])))) := by
    simp
  exact hassoc _ _ _ _ _

theorem logged_of_warnings (h : t ∈ s.loadService.warnings) : Logged s t := by
  have hloaded : t ∈ (s.loadConfig Config.default).warnings → Logged s t := by
    intro ht
    rw [Settings.warnings_loadConfig] at ht
    obtain ⟨key, -, ht⟩ := List.mem_flatMap.mp ht
    unfold Settings.complaints at ht
    split at ht
    · cases ht
    · rename_i raw hraw
      split at ht
      · cases ht
      · exact logged_of_complaints hraw ht
  unfold Settings.loadService at h
  split at h
  · exact hloaded h
  · rename_i raw hworkers
    have hraw : s.get? SettingKey.workers.name = some raw :=
      (Option.filter_eq_some_iff.mp hworkers).1
    split at h
    · exact hloaded h
    · rcases List.mem_append.mp h with h | h
      · exact hloaded h
      · exact logged_of_complaints hraw h

/-- **Every line of the log** is an entry of a message that is filled with the values it is
    about. -/
theorem logged_of_session {started : Session} (h : session s = .ok started) {e : Json}
    (he : e ∈ started.log) : ∃ (level : Level) (t : Text), Logged s t ∧ e = entry level.name t := by
  have hline : ∀ {level : Level} {t : Text}, e ∈ line started.level level t → Logged s t →
      ∃ (level : Level) (t : Text), Logged s t ∧ e = entry level.name t := by
    intro level t he ht
    unfold line at he
    split at he
    · exact ⟨level, t, ht, List.mem_singleton.mp he⟩
    · cases he
  unfold session at h
  cases hlevel : Level.ofSetting (s.nonempty? .logLevel) with
  | error e => rw [hlevel] at h; cases h
  | ok level =>
    rw [hlevel] at h
    cases h
    simp only [List.append_assoc, List.mem_append, List.mem_flatMap] at he
    rcases he with ⟨warning, hwarning, he⟩ | he | he | he
    · exact hline he (logged_of_warnings hwarning)
    · rw [defaultsLine_eq] at he
      exact hline he (Logs.defaults.logged rfl)
    · rw [← List.append_nil (Text.ofInt _)] at he
      exact hline he (Logs.starts.logged rfl)
    · exact hline he (Logs.stops.logged rfl)

end Service

end TexMark
