/-
  TexMark/Proofs/Environment/SketchFrames.lean
  ============================================
  **Conversions with numbers in their contents.**  A frame is converted in the same way whatever
  the numbers in its content are (`exists_convertedAs`): what it is turned into carries these
  numbers, and behind them its own, if it gets one.  Whether it does is uniform as well, for no
  number looks like a command that forbids it (`isUnnumbered_filled`).
-/
import TexMark.Proofs.Environment.SketchRows
import TexMark.Proofs.Environment.Closings
import TexMark.Proofs.Theorem.Headings

namespace TexMark

open Text (isBlank)

/-! ### Commands that forbid a number -/

namespace Environment

theorem forbidsNumber_cons {c : Char} (hc : c ≠ '\\') (t : Text) :
    forbidsNumber (c :: t) = false := by
  simp [forbidsNumber, Markup.word?, Markup.command?, Text.dropPrefix?, Ne.symm hc]

/-- Only a backslash begins a command. -/
theorem occurs_append {u : Text} (hu : '\\' ∉ u) (t : Text) :
    Scan.occurs forbidsNumber (u ++ t) = Scan.occurs forbidsNumber t := by
  induction u with
  | nil => rfl
  | cons c u ih =>
    rw [List.mem_cons, not_or] at hu
    rw [List.cons_append, Scan.occurs, forbidsNumber_cons (Ne.symm hu.1), Bool.false_or, ih hu.2]

end Environment

namespace Sketch

variable {write write' : Numerals} {σ τ : Sketch}

/-- No number forbids itself. -/
theorem occurs_tag (hwrite : write.Plain) (n : Nat) (t : Text) :
    Scan.occurs Environment.forbidsNumber ((Glyph.tag n).text write ++ t) =
      Scan.occurs Environment.forbidsNumber t := by
  have hgroup : '\\' ∉ "tag\x7b".toList ++ write n ++ ['}'] := by
    have hnumeral : '\\' ∉ write n := fun hn => (hwrite n _ hn).1.1 rfl
    simp [hnumeral]
  have htext : (Glyph.tag n).text write ++ t =
      '\\' :: ("tag\x7b".toList ++ write n ++ ['}'] ++ t) := by
    simp [Glyph.text, Text.braced]
  rw [htext, Scan.occurs, Environment.occurs_append hgroup]
  rfl

/-- Whether a formula gets a number does not depend on how the numbers in it are written. -/
theorem isUnnumbered_filled (hwrite : write.Plain) (hwrite' : write'.Plain) (σ : Sketch) :
    Environment.isUnnumbered (filled write σ) = Environment.isUnnumbered (filled write' σ) := by
  unfold Environment.isUnnumbered
  induction σ with
  | nil => rfl
  | cons g σ ih =>
    cases g with
    | tag n => rw [filled_cons, filled_cons, occurs_tag hwrite, occurs_tag hwrite', ih]
    | char c =>
      have hhere : Environment.forbidsNumber (c :: filled write σ) =
          Environment.forbidsNumber (c :: filled write' σ) := by
        by_cases hc : c = '\\'
        · subst hc
          have hword {name : Text} (hname : '\\' ∉ name) :
              (Markup.word? name ('\\' :: filled write σ)).isSome =
                (Markup.word? name ('\\' :: filled write' σ)).isSome :=
            Bool.eq_iff_iff.mpr ⟨word?_isSome hname _ _ σ, word?_isSome hname _ _ σ⟩
          rw [Environment.forbidsNumber, Environment.forbidsNumber, hword (by decide),
            hword (by decide)]
        · rw [Environment.forbidsNumber_cons hc, Environment.forbidsNumber_cons hc]
      change Scan.occurs _ (c :: filled write σ) = Scan.occurs _ (c :: filled write' σ)
      rw [Scan.occurs, Scan.occurs, hhere, ih]

/-! ### Quotations -/

theorem isBlankText_filled (write : Numerals) (σ : Sketch) :
    Text.isBlankText (filled write σ) = σ.all (Glyph.among isBlank) := by
  induction σ with
  | nil => rfl
  | cons g σ ih =>
    unfold Text.isBlankText at ih ⊢
    rw [filled_cons, List.all_append, ih, List.all_cons]
    cases g with
    | char c => simp [Glyph.text, Glyph.among]
    | tag n => rfl

/-- A text shows at its beginning whether its sketch begins with a number. -/
theorem guarded_of_filled {t : Text} (h : filled write σ = t)
    (ht : ¬ "\\tag\x7b".toList <+: Text.skipBlanks t) : Guarded σ := by
  intro g hg
  cases g with
  | char c => rfl
  | tag n =>
    refine absurd ?_ ht
    have hbegins : Text.skipBlanks t = filled write (σ.dropWhile (Glyph.among isBlank)) := by
      rw [← h]
      exact filled_dropWhile (by decide) write σ
    rw [hbegins, List.eq_cons_of_mem_head? hg]
    exact ⟨write n ++ '}' :: _, by simp [Glyph.text, Text.braced]; rfl⟩

end Sketch

open Sketch

variable {d : Numerals → Text} {ns : List Nat}

theorem Carries.quotedLine (h : Carries d ns) :
    Carries (fun write => Callout.quotedLine (d write)) ns := by
  obtain ⟨σ, hσ, rfl, hd⟩ := h
  by_cases hblank : σ.all (Glyph.among isBlank)
  · refine ⟨ofText ['>'], settled_ofText _, ?_, fun write hwrite => ?_⟩
    · rw [tags_ofText, tags_eq_nil (List.all_eq_true.mp hblank)]
    · dsimp only
      rw [hd write hwrite, Callout.quotedLine, isBlankText_filled, if_pos hblank, filled_ofText]
  · refine ⟨ofText ['>', ' '] ++ σ, hσ.behind (by decide), by simp, fun write hwrite => ?_⟩
    dsimp only
    rw [hd write hwrite, Callout.quotedLine, isBlankText_filled, if_neg hblank, filled_append,
      filled_ofText]
    rfl

/-- **Callouts** show the numbers that their contents carry. -/
theorem Carries.render (h : Carries d ns) (register : TheoremRegister) (name : Text)
    (number? title? : Option Text) :
    Carries (fun write => Callout.render register name (d write) number? title?) ns := by
  have hlead : ((register.heading? name).elim [] (Callout.leadIn · number?)).getLast? ≠
      some '\\' := by
    cases register.heading? name with
    | none => exact nofun
    | some heading =>
      rw [Option.elim_some, Callout.leadIn_eq, ← List.concat_append]
      simp
  rcases h.strip.lines.uncons with hnone | ⟨first, rest, ms, ms', hfirst, hrest, rfl, hlines⟩
  · exact absurd (hnone _ Numerals.plain_ofNat) (Text.splitOn_ne_nil _ _)
  have hopened := (hfirst.between hlead []).stripEnd
  have hquoted := (CarriesAll.cons hopened hrest).map fun σ hσ _ => (carries_filled hσ).quotedLine
  have hbody := hquoted.append (carriesAll_const [[], []])
  have hall := ((carriesAll_const [Callout.headLine (Callout.nameFor name) title?]).append
    hbody).unlines
  rw [List.nil_append, List.append_nil] at hall
  refine hall.congr fun write hwrite => ?_
  rw [Callout.render_eq_heading register (hlines write hwrite)]
  simp

/-- **Merging columns** keeps the numbers of rows. -/
theorem CarriesAll.mergeColumns {ds : Numerals → List Text} (h : CarriesAll ds ns)
    (hclean : ∀ row ∈ ds Text.ofNat, Environment.MergesCleanly row) :
    CarriesAll (fun write => (ds write).map Environment.mergeColumns) ns :=
  h.map fun _ hσ hmem => exists_mergeColumns hσ (hclean _ hmem)

namespace Environment

/-! ### Without a number of its own -/

/-- Rows of a frame whose columns are merged do not lose the border of a number. -/
def Frame.MergesCleanly (frame : Frame) (content : Text) : Prop :=
  legacyNames.contains frame.name → ∀ row ∈ Rows.split content, Environment.MergesCleanly row

section

variable {settings : Settings} {frame : Frame} {content : Text}

theorem converted_of_untagged (h : tagged? settings frame content = none)
    (register : TheoremRegister) (equations : Nat) :
    frame.converted settings register content equations =
      (frame.plain settings register content, equations) := by
  rw [Frame.converted, convert_of_untagged h]

end

/-! ### With numbers in the content -/

section

variable {settings : Settings} {frame : Frame} {d : Numerals → Text} {ns : List Nat}

theorem carries_plain (h : Carries d ns) (hclean : frame.MergesCleanly (d Text.ofNat))
    (register : TheoremRegister) :
    Carries (fun write => frame.plain settings register (d write)) ns := by
  unfold Frame.plain
  cases settings.converters.get? frame.name with
  | some converter =>
    cases converter with
    | equation => exact h.strip.display
    | multline => exact (h.split.indentedRows.join.wrapped _ _).display
    | gather => exact (h.reflow.wrapped _ _).display
    | inner => exact h.reflow.wrapped _ _
    | container => exact h.strip
    | unknown => exact (h.strip.wrapped _ _).display
    | aligned =>
      have hrows : CarriesAll (fun write => alignedRows frame (d write)) ns := by
        unfold alignedRows
        by_cases hlegacy : legacyNames.contains frame.name
        · simp only [if_pos hlegacy]
          exact h.split.mergeColumns (hclean hlegacy)
        · simp only [if_neg hlegacy]
          exact h.split
      exact (hrows.join.wrapped _ _).display
  | none =>
    dsimp only
    split
    · have hcallout := h.render register frame.name frame.number? frame.title?
      split
      · refine (hcallout.between (u := ['\n', '\n']) (by decide) []).congr fun write _ => ?_
        simp
      · exact hcallout
    · exact (h.strip.wrapped _ _).display

/-- A text that begins with another visible character does not begin with a number. -/
theorem not_prefix_cons {c : Char} (hc : isBlank c = false) (hne : c ≠ '\\') (t : Text) :
    ¬ "\\tag\x7b".toList <+: Text.skipBlanks (c :: t) := by
  have hkept : Text.skipBlanks (c :: t) = c :: t := List.dropWhile_cons_of_neg (by simp [hc])
  rw [hkept]
  intro h
  exact hne (List.cons_prefix_cons.mp h).1.symm

theorem not_prefix_display (t : Text) :
    ¬ "\\tag\x7b".toList <+: Text.skipBlanks (Delimiter.display t) := by
  rw [Delimiter.display_lines, List.singleton_append, Text.unlines_cons]
  exact not_prefix_cons (c := '$') (by decide) (by decide) _

theorem not_prefix_render (register : TheoremRegister) (name content : Text)
    (number? title? : Option Text) : ¬ "\\tag\x7b".toList <+:
      Text.skipBlanks (Callout.render register name content number? title?) := by
  have hbegins : ∃ rest, Callout.headLine (Callout.nameFor name) title? = '>' :: rest := by
    rw [Callout.headLine]
    split <;> exact ⟨_, rfl⟩
  obtain ⟨rest, hrest⟩ := hbegins
  rw [Callout.render, Text.unlines_cons, hrest]
  exact not_prefix_cons (c := '>') (by decide) (by decide) _

theorem not_prefix_wrapped (name argument body : Text) :
    ¬ "\\tag\x7b".toList <+: Text.skipBlanks (wrapped name argument body) := by
  rintro ⟨more, hmore⟩
  have hsecond : 't' = 'b' := (List.cons.inj (List.cons.inj hmore).2).1
  exact absurd hsecond (by decide)

/-- No conversion but that of a container begins with a number. -/
theorem not_prefix_plain (settings : Settings) (register : TheoremRegister) (frame : Frame)
    (content : Text) (hcontainer : settings.converters.get? frame.name ≠ some .container) :
    ¬ "\\tag\x7b".toList <+: Text.skipBlanks (frame.plain settings register content) := by
  unfold Frame.plain
  cases hconverter : settings.converters.get? frame.name with
  | some converter =>
    cases converter with
    | container => exact absurd hconverter hcontainer
    | inner => exact not_prefix_wrapped _ _ _
    | equation => exact not_prefix_display _
    | multline => exact not_prefix_display _
    | gather => exact not_prefix_display _
    | unknown => exact not_prefix_display _
    | aligned => exact not_prefix_display _
  | none =>
    dsimp only
    split
    · split
      · exact not_prefix_render register frame.name content frame.number? frame.title?
      · exact not_prefix_render register frame.name content frame.number? frame.title?
    · exact not_prefix_display _

/-- **Without a number of its own**, a frame is turned into a sketch that is as good as that of
    its content. -/
theorem exists_plain {σ : Sketch} (hσ : Settled σ) (hguarded : Guarded σ)
    (hclean : frame.MergesCleanly (filled Text.ofNat σ)) (register : TheoremRegister) :
    ∃ τ, Settled τ ∧ Guarded τ ∧ tags τ = tags σ ∧ ∀ write : Numerals, write.Plain →
      frame.plain settings register (filled write σ) = filled write τ := by
  by_cases hcontainer : settings.converters.get? frame.name = some .container
  · refine ⟨σ.strip, hσ.strip, hguarded.strip, tags_strip σ, fun write _ => ?_⟩
    rw [Frame.plain, hcontainer, filled_strip]
    rfl
  · obtain ⟨τ, hτ, htags, hplain⟩ := carries_plain (carries_filled hσ) hclean register
    refine ⟨τ, hτ, ?_, htags, hplain⟩
    exact guarded_of_filled (hplain _ Numerals.plain_ofNat).symm
      (not_prefix_plain settings register frame _ hcontainer)

/-! ### With a number -/

theorem formula?_cases (settings : Settings) (frame : Frame) (h : Carries d ns) :
    (∀ write : Numerals, write.Plain → formula? settings frame (d write) = none) ∨
      ∃ b, Carries b ns ∧ ∀ write : Numerals, write.Plain →
        formula? settings frame (d write) = some (b write) := by
  unfold formula?
  split
  · exact .inr ⟨_, h.strip, fun _ _ => rfl⟩
  · exact .inr ⟨_, h.split.indentedRows.join.wrapped "aligned" [], fun _ _ => rfl⟩
  · exact .inl fun _ _ => rfl

/-- Whether a formula is shown with a number is the same for all numbers in it. -/
theorem tagged?_cases (settings : Settings) (frame : Frame) (h : Carries d ns) :
    (∀ write : Numerals, write.Plain → tagged? settings frame (d write) = none) ∨
      ∃ b, Carries b ns ∧ ∀ write : Numerals, write.Plain →
        tagged? settings frame (d write) = some (b write) := by
  unfold tagged?
  rcases formula?_cases settings frame h with hnone | ⟨b, hb, hsome⟩
  · exact .inl fun write hwrite => by rw [hnone write hwrite, Option.filter_none]
  · have huniform (write : Numerals) (hwrite : write.Plain) :
        isUnnumbered (b write) = isUnnumbered (b Text.ofNat) := by
      obtain ⟨β, -, -, hfilled⟩ := hb
      rw [hfilled write hwrite, hfilled _ Numerals.plain_ofNat]
      exact isUnnumbered_filled hwrite Numerals.plain_ofNat β
    by_cases hallowed : settings.numberEquations && numberedNames.contains frame.name &&
        !isUnnumbered (b Text.ofNat)
    · refine .inr ⟨b, hb, fun write hwrite => ?_⟩
      rw [hsome write hwrite, Option.filter_some, huniform write hwrite, if_pos hallowed]
    · refine .inl fun write hwrite => ?_
      rw [hsome write hwrite, Option.filter_some, huniform write hwrite, if_neg hallowed]

/-- What a frame is turned into if its number is written in another way. -/
def Frame.convertedAs (write : Numerals) (settings : Settings) (register : TheoremRegister)
    (frame : Frame) (content : Text) (equations : Nat) : Text × Nat :=
  match tagged? settings frame content with
  | some body =>
    (Delimiter.display (body ++ " \\tag" ++ Text.braced (write (equations + 1))), equations + 1)
  | none => (frame.plain settings register content, equations)

theorem convertedAs_ofNat (settings : Settings) (register : TheoremRegister) (frame : Frame)
    (content : Text) (equations : Nat) :
    frame.convertedAs Text.ofNat settings register content equations =
      frame.converted settings register content equations := by
  unfold Frame.convertedAs
  cases htagged : tagged? settings frame content with
  | none => exact (converted_of_untagged htagged register equations).symm
  | some body =>
    rw [Frame.converted, convert_of_tagged htagged]
    rfl

/-- **The conversion of a sketch.**  The numbers of the content stay, each of them once and in
    their order, and the number of the frame comes behind them. -/
theorem exists_convertedAs {σ : Sketch} (hσ : Settled σ) (hguarded : Guarded σ)
    (hclean : frame.MergesCleanly (filled Text.ofNat σ)) (register : TheoremRegister)
    (equations : Nat) :
    ∃ τ k, Settled τ ∧ Guarded τ ∧
      tags τ = tags σ ++ ((tagged? settings frame (filled Text.ofNat σ)).map
        fun _ => equations + 1).toList ∧
      ∀ write : Numerals, write.Plain →
        frame.convertedAs write settings register (filled write σ) equations =
          (filled write τ, k) := by
  unfold Frame.convertedAs
  rcases tagged?_cases settings frame (carries_filled hσ) with hnone | ⟨b, hb, hsome⟩
  · obtain ⟨τ, hτ, hbegins, htags, hplain⟩ := exists_plain hσ hguarded hclean register
    refine ⟨τ, equations, hτ, hbegins, ?_, fun write hwrite => ?_⟩
    · rw [hnone _ Numerals.plain_ofNat, htags]
      exact (List.append_nil _).symm
    · rw [hnone write hwrite]
      exact congrArg (·, equations) (hplain write hwrite)
  · obtain ⟨τ, hτ, htags, hshown⟩ := (hb.tagged (equations + 1)).display
    refine ⟨τ, equations + 1, hτ, ?_, ?_, fun write hwrite => ?_⟩
    · exact guarded_of_filled (hshown _ Numerals.plain_ofNat).symm (not_prefix_display _)
    · rw [hsome _ Numerals.plain_ofNat, htags]
      rfl
    · rw [hsome write hwrite]
      exact congrArg (·, equations + 1) (hshown write hwrite)

end

end Environment

end TexMark
