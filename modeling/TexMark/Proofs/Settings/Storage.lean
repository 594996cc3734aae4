/-
  TexMark/Proofs/Settings/Storage.lean
  ====================================
  **Storing a setting.**  A settings file is written line by line and read line by line, but the
  two do not agree on what a line of a key is: one that is written begins with the key, and one
  that is read may have blanks in front of it.  So a key can be shadowed (`Shadowed`).

    * `read_write` — what is read behind a write are the entries of the lines written, if the
      value has no line boundary but among the blanks at its end;
    * `filter_linesWith` — the entries of other keys are those that there were;
    * `getLast?_linesWith` — the last entry of the key is the one that was set, unless the key
      is shadowed.
-/
import TexMark.Proofs.Files
import TexMark.Proofs.Settings.Lines
import TexMark.Proofs.Tables
import TexMark.Command.Run

namespace TexMark

namespace SettingsFile

open Text (isBlank isLineBoundary strip stripEnd splitLines splitLinesFrom)

/-! ### Entries -/

/-- A key is a letter or an underscore, and then letters, digits and underscores. -/
structure IsKey (key : Text) : Prop where
  head : ∃ c ∈ key.head?, isKeyStart c
  parts : ∀ c ∈ key, isKeyPart c

/-- The entry that a line of a key makes. -/
def entryOf (key value : Text) : Text × Text := (key, Text.trim isQuote (stripEnd value))

theorem not_isBlank_of_isKeyPart {c : Char} (h : isKeyPart c) : ¬ isBlank c := by
  simp only [isKeyPart, isKeyStart, Bool.or_eq_true, Bool.and_eq_true, decide_eq_true_eq,
    beq_iff_eq, Char.le_def, UInt32.le_iff_toNat_le] at h
  simp only [isBlank, Bool.or_eq_true, Bool.and_eq_true, decide_eq_true_eq, beq_iff_eq, not_or]
  have hvalue : c.toNat = c.val.toNat := rfl
  rcases h with (⟨h₁, h₂⟩ | rfl) | ⟨h₁, h₂⟩
  · simp only [Char.reduceVal, UInt32.reduceToNat] at h₁ h₂
    omega
  · decide
  · simp only [Char.reduceVal, UInt32.reduceToNat] at h₁ h₂
    omega

/-- Blanks behind a line do not count. -/
theorem entry?_append_blank {v : Text} (hv : ∀ c ∈ v, isBlank c) (l : Text) :
    entry? (l ++ v) = entry? l := by
  unfold entry?
  rw [Text.strip_append_blank hv]

theorem entry?_blank {v : Text} (hv : ∀ c ∈ v, isBlank c) : entry? v = none := by
  rw [← List.nil_append v, entry?_append_blank hv]
  rfl

theorem entry?_line {key : Text} (hkey : IsKey key) (value : Text) :
    entry? (key ++ '=' :: value) = some (entryOf key value) := by
  obtain ⟨c, hc, hstart⟩ := hkey.head
  obtain ⟨rest, rfl⟩ : ∃ rest, key = c :: rest := by
    cases key with
    | nil => cases hc
    | cons d rest => exact ⟨rest, by rw [Option.some.inj hc]⟩
  have hstrip : strip (c :: rest ++ '=' :: value) = c :: rest ++ '=' :: stripEnd value := by
    have hfirst : ¬ isBlank c := not_isBlank_of_isKeyPart (hkey.parts c List.mem_cons_self)
    have hdrop : (c :: rest ++ '=' :: value).dropWhile isBlank = c :: rest ++ '=' :: value :=
      List.dropWhile_cons_of_neg hfirst
    rw [Text.strip_eq, hdrop]
    exact Text.stripEnd_append_cons (c :: rest) (by decide) value
  have htake : (c :: rest ++ '=' :: stripEnd value).takeWhile isKeyPart = c :: rest := by
    rw [List.takeWhile_append_of_pos hkey.parts, List.takeWhile_cons_of_neg (by decide),
      List.append_nil]
  simp only [ entry?, hstrip, htake, List.drop_left, if_pos hstart]
  rfl

/-- Blanks go on with the line under way and make no further entry, whether they end it or
    not. -/
theorem filterMap_blank {t : Text} (ht : ∀ c ∈ t, isBlank c) (line : Option Text) :
    (splitLinesFrom line t).filterMap entry? = (line.bind entry?).toList := by
  have hended : ∀ line : Option Text, entry? (line.getD []) = line.bind entry? := by
    intro line
    cases line with
    | none => exact entry?_blank (by simp)
    | some l => rfl
  fun_induction splitLinesFrom line t with
  | case1 line =>
    cases line with
    | none => rfl
    | some l => cases h : entry? l <;> simp [h]
  | case2 line rest ih =>
    have hrest := ih fun c hc => ht c (by simp [hc])
    rw [List.filterMap_cons, hended, hrest]
    cases line.bind entry? <;> rfl
  | case3 line c rest _ _ ih =>
    have hrest := ih fun d hd => ht d (List.mem_cons_of_mem c hd)
    rw [List.filterMap_cons, hended, hrest]
    cases line.bind entry? <;> rfl
  | case4 line c rest _ _ ih =>
    have hblank : ∀ d ∈ [c], isBlank d := by simpa using ht c List.mem_cons_self
    rw [ih fun d hd => ht d (List.mem_cons_of_mem c hd), Option.bind_some,
      entry?_append_blank hblank, hended]

/-- A line that is ended by a line feed makes its entry, with no other boundary in it than
    among the blanks at its end. -/
theorem filterMap_line {l : Text} (hl : ∀ c ∈ stripEnd l, isLineBoundary c = false) :
    (splitLines (l ++ ['\n'])).filterMap entry? = ( entry? l).toList := by
  obtain ⟨v, hv, hblank⟩ := Text.exists_stripEnd l
  have hended : ∀ c ∈ v ++ ['\n'], isBlank c := by
    intro c hc
    rcases List.mem_append.mp hc with hc | hc
    · exact hblank c hc
    · rw [List.mem_singleton.mp hc]
      rfl
  have hsplit : splitLines (l ++ ['\n']) = splitLinesFrom (some (stripEnd l)) (v ++ ['\n']) := by
    rw [splitLines, Text.splitLinesFrom_none (by simp)]
    conv_lhs => rw [hv, List.append_assoc]
    rw [Text.splitLinesFrom_append hl]
    rfl
  rw [hsplit, filterMap_blank hended, Option.bind_some]
  conv_rhs => rw [hv, entry?_append_blank hblank]

/-! ### Writing a key -/

/-- The lines of a file with a key set. -/
def linesWith (key value : Text) (ls : List Text) : List Text :=
  let line := key ++ '=' :: value
  let changed := ls.map fun l => if isLineOf key l then line else l
  if ls.any (isLineOf key) then changed else changed ++ [line]

theorem linesWith_ne_nil (key value : Text) (ls : List Text) : linesWith key value ls ≠ [] := by
  unfold linesWith
  dsimp only
  split
  · rename_i hany
    obtain ⟨l, hl, -⟩ := List.any_eq_true.mp hany
    simpa using List.ne_nil_of_mem hl
  · simp

theorem mem_linesWith {key value l : Text} {ls : List Text} (h : l ∈ linesWith key value ls) :
    l = key ++ '=' :: value ∨ l ∈ ls := by
  have hchanged : ∀ l, l ∈ ls.map (fun l => if isLineOf key l then key ++ '=' :: value else l) →
      l = key ++ '=' :: value ∨ l ∈ ls := by
    intro l hl
    obtain ⟨l', hl', rfl⟩ := List.mem_map.mp hl
    split
    · exact .inl rfl
    · exact .inr hl'
  unfold linesWith at h
  dsimp only at h
  split at h
  · exact hchanged l h
  · rcases List.mem_append.mp h with h | h
    · exact hchanged l h
    · exact .inl (List.mem_singleton.mp h)

theorem not_boundary_of_mem_stripEnd_line {key value : Text} (hkey : IsKey key)
    (hvalue : ∀ c ∈ stripEnd value, isLineBoundary c = false) :
    ∀ c ∈ stripEnd (key ++ '=' :: value), isLineBoundary c = false := by
  intro c hc
  rw [Text.stripEnd_append_cons key (by decide)] at hc
  rcases List.mem_append.mp hc with hc | hc
  · have hsolid := not_isBlank_of_isKeyPart (hkey.parts c hc)
    exact Bool.eq_false_iff.mpr fun h => hsolid (Text.isBlank_of_isLineBoundary h)
  · rcases List.mem_cons.mp hc with rfl | hc
    · rfl
    · exact hvalue c hc

/-- A file with a key set is read line by line. -/
theorem read_write {key value : Text} (hkey : IsKey key)
    (hvalue : ∀ c ∈ stripEnd value, isLineBoundary c = false) (content? : Option Text) :
    read (Text.unifyLineFeeds (write content? key value)) =
      Table.merge [] ((linesWith key value (splitLines (content?.getD []))).filterMap entry?) := by
  have hbare : ∀ l ∈ linesWith key value (splitLines (content?.getD [])),
      (splitLines (l ++ ['\n'])).filterMap entry? = ( entry? l).toList := by
    intro l hl
    apply filterMap_line
    rcases mem_linesWith hl with rfl | hl
    · exact not_boundary_of_mem_stripEnd_line hkey hvalue
    · intro c hc
      obtain ⟨v, hv, -⟩ := Text.exists_stripEnd l
      exact Text.not_boundary_of_mem_splitLines hl c (hv ▸ List.mem_append_left v hc)
  have hwrite : write content? key value =
      Text.unlines (linesWith key value (splitLines (content?.getD []))) ++ ['\n'] := rfl
  rw [read, Text.splitLines_unifyLineFeeds, hwrite,
    Text.splitLines_unlines (linesWith_ne_nil key value _), List.filterMap_flatMap,
    List.flatMap_congr hbare, List.filterMap_eq_flatMap_toList]

/-! ### Reading it again -/

theorem isLineOf_iff {key l : Text} : isLineOf key l ↔ ∃ value, l = key ++ '=' :: value := by
  rw [isLineOf, Text.startsWith, Option.isSome_iff_exists]
  simp only [Text.dropPrefix?_eq_some_iff, List.append_assoc, List.singleton_append]

/-- Setting a key leaves the entries of all other keys in their places. -/
theorem filter_linesWith {key other : Text} (hkey : IsKey key) (hother : other ≠ key)
    (value : Text) (ls : List Text) :
    ((linesWith key value ls).filterMap entry?).filter (fun e => e.1 == other) =
      (ls.filterMap entry?).filter fun e => e.1 == other := by
  have hnone : ∀ value, ( entry? (key ++ '=' :: value)).filter (fun e => e.1 == other) = none := by
    intro value
    rw [entry?_line hkey]
    simp [entryOf, Ne.symm hother]
  have hline : ∀ l, ( entry? (if isLineOf key l then key ++ '=' :: value else l)).filter
      (fun e => e.1 == other) = ( entry? l).filter fun e => e.1 == other := by
    intro l
    split
    · rename_i hl
      obtain ⟨old, rfl⟩ := isLineOf_iff.mp hl
      rw [hnone, hnone]
    · rfl
  have hchanged : (ls.map fun l => if isLineOf key l then key ++ '=' :: value else l).filterMap
      (fun l => ( entry? l).filter fun e => e.1 == other) =
        ls.filterMap fun l => ( entry? l).filter fun e => e.1 == other := by
    rw [List.filterMap_map]
    exact List.filterMap_congr fun l _ => hline l
  rw [List.filter_filterMap, List.filter_filterMap]
  unfold linesWith
  dsimp only
  split
  · exact hchanged
  · rw [List.filterMap_append, hchanged, List.filterMap_cons, hnone]
    simp

/-- **A key is shadowed** if there are lines that begin with it, and behind the last of them one
    that gives it a value all the same. -/
def Shadowed (key : Text) (ls : List Text) : Prop :=
  (∃ l ∈ ls, isLineOf key l) ∧
    ∃ l ∈ ls.reverse.takeWhile (fun l => !isLineOf key l), ( entry? l).map (·.1) = some key

instance (key : Text) (ls : List Text) : Decidable (Shadowed key ls) :=
  inferInstanceAs (Decidable (_ ∧ _))

/-- Unless the key is shadowed, its last entry is the one that was set. -/
theorem getLast?_linesWith {key : Text} (hkey : IsKey key) (value : Text) {ls : List Text}
    (hseen : ¬ Shadowed key ls) :
    (((linesWith key value ls).filterMap entry?).filter fun e => e.1 == key).getLast? =
      some (entryOf key value) := by
  have hlast : ∀ front back : List Text, (∀ l ∈ back, ( entry? l).map (·.1) ≠ some key) →
      (((front ++ (key ++ '=' :: value) :: back).filterMap entry?).filter
        fun e => e.1 == key).getLast? = some (entryOf key value) := by
    intro front back hback
    have hbehind : (back.filterMap entry?).filter (fun e => e.1 == key) = [] := by
      rw [List.filter_eq_nil_iff]
      intro e he hname
      obtain ⟨l, hl, hentry⟩ := List.mem_filterMap.mp he
      apply hback l hl
      rw [hentry, Option.map_some, beq_iff_eq.mp hname]
    rw [List.filterMap_append, List.filterMap_cons_some (entry?_line hkey value),
      List.filter_append, List.filter_cons_of_pos (by simp [entryOf]), hbehind]
    simp
  unfold linesWith
  dsimp only
  split
  · rename_i hany
    obtain ⟨l, hl⟩ := Option.isSome_iff_exists.mp
      (List.find?_isSome.mpr (by simpa using hany) : (ls.reverse.find? (isLineOf key)).isSome)
    obtain ⟨hl, back, front, hsplit, hback⟩ := List.find?_eq_some_iff_append.mp hl
    have hls : ls = front.reverse ++ l :: back.reverse := by
      have h := congrArg List.reverse hsplit
      simpa using h
    have hbehind : ls.reverse.takeWhile (fun l => !isLineOf key l) = back := by
      rw [hsplit, List.takeWhile_append_of_pos hback, List.takeWhile_cons_of_neg (by simp [hl]),
        List.append_nil]
    have hsame : (back.reverse.map fun l => if isLineOf key l then key ++ '=' :: value else l) =
        back.reverse := by
      refine (List.map_congr_left fun b hb => if_neg ?_).trans (List.map_id' _)
      simpa using hback b (List.mem_reverse.mp hb)
    rw [hls, List.map_append, List.map_cons, if_pos hl, hsame]
    refine hlast _ _ fun b hb hentry => hseen ?_
    refine ⟨⟨l, by simp [hls], hl⟩, b, ?_, hentry⟩
    rw [hbehind]
    exact List.mem_reverse.mp hb
  · exact hlast _ [] (by simp)

end SettingsFile

/-! ### Keys -/

namespace SettingKey

theorem name_of_ofName? {t : Text} {key : SettingKey} (h : ofName? t = some key) :
    key ∈ all ∧ key.name = t := by
  have hname := List.find?_some h
  exact ⟨List.mem_of_find?_eq_some h, beq_iff_eq.mp hname⟩

/-- The names of keys are written in capitals and underscores. -/
theorem name_spec {key : SettingKey} (h : key ∈ all) :
    key.name.head? = some 'T' ∧ key.name.all SettingsFile.isKeyPart ∧
      Text.upper key.name = key.name := by
  have hall : ∀ k ∈ all, k.name.head? = some 'T' ∧ k.name.all SettingsFile.isKeyPart ∧
      Text.upper k.name = k.name := by decide +kernel
  exact hall key h

theorem isKey_name {key : SettingKey} (h : key ∈ all) : SettingsFile.IsKey key.name where
  head := ⟨'T', (name_spec h).1, rfl⟩
  parts := List.all_eq_true.mp (name_spec h).2.1

end SettingKey

end TexMark
