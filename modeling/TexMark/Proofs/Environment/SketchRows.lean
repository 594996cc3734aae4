/-
  TexMark/Proofs/Environment/SketchRows.lean
  ==========================================
  **Rows with numbers in them.**  A number is read as a command with its group, so that no row
  ends in it (`exists_rawRows`).  Dividing a formula into rows and joining them keeps the numbers
  that they carry (`Carries.split`, `CarriesAll.join`).  Merging two columns does so if no
  backslash comes to stand in front of a number (`MergesCleanly`).
-/
import TexMark.Proofs.Environment.Columns
import TexMark.Proofs.Environment.Sketch

namespace TexMark

open Rows (Depth IsPlain Mark Passes Piece pieces splitPieces)
open Rows.Piece (Stands)
open Text (isBlank isLetter)

namespace Environment

/-- A cell that ends with a backslash does not come to stand in front of a number when the column
    mark between the two is taken away. -/
def MergesCleanly (row : Text) : Prop :=
  ∀ a b t, row = a ++ '&' :: (b ++ '&' :: t) → '&' ∉ a → '&' ∉ b →
    ¬ ((Text.strip b).getLast? = some '\\' ∧ "\\tag\x7b".toList <+: t)

end Environment

namespace Sketch

variable {write : Numerals} {σ τ : Sketch} {t u : Text} {d : Depth}

/-! ### Pieces -/

/-- Does a sketch begin with a letter? -/
def letterFollows : Sketch → Bool
  | .char c :: _ => isLetter c
  | _ => false

theorem letterFollows_filled (write : Numerals) (σ : Sketch) :
    Rows.letterFollows (filled write σ) = letterFollows σ := by
  rcases σ with _ | ⟨c | n, σ⟩ <;> rfl

/-- **The piece at the head of a sketch.**  It is the same for all numbers, since no backslash
    stands in front of one. -/
theorem exists_stands {c : Char} (h : Settled (.char c :: σ)) :
    ∃ p τ, Glyph.char c :: σ = ofText p.lexeme ++ τ ∧ ∀ write, Stands p (filled write τ) := by
  by_cases hc : c = '\\'
  · subst hc
    by_cases hbegin : ofText ['b', 'e', 'g', 'i', 'n'] <+: σ
    · obtain ⟨τ, rfl⟩ := hbegin
      exact ⟨⟨.enter, "\\begin"⟩, τ, rfl, fun write => .enter _⟩
    by_cases hend : ofText ['e', 'n', 'd'] <+: σ
    · obtain ⟨τ, rfl⟩ := hend
      refine ⟨⟨if letterFollows τ then .plain else .leave, "\\end"⟩, τ, rfl, fun write => ?_⟩
      rw [← letterFollows_filled write]
      exact .leave _
    rcases σ with _ | ⟨e | n, σ⟩
    · exact ⟨⟨.plain, ['\\']⟩, [], rfl, fun _ => .lone⟩
    · by_cases he : e = '\\'
      · subst he
        exact ⟨⟨.separator, ['\\', '\\']⟩, σ, rfl, fun _ => .separator _⟩
      · refine ⟨⟨.plain, ['\\', e]⟩, σ, rfl, fun write => .escaped e _ he ?_ ?_⟩
        · rwa [← isPrefix_filled_iff write (by decide)] at hbegin
        · rwa [← isPrefix_filled_iff write (by decide)] at hend
    · cases (List.isChain_cons_cons.mp h).1 rfl
  · by_cases hopen : c = '{'
    · subst hopen
      exact ⟨⟨.openBrace, ['{']⟩, σ, rfl, fun _ => .openBrace _⟩
    by_cases hclose : c = '}'
    · subst hclose
      exact ⟨⟨.closeBrace, ['}']⟩, σ, rfl, fun _ => .closeBrace _⟩
    exact ⟨⟨.plain, [c]⟩, σ, rfl, fun _ => .char c _ ⟨hc, hopen, hclose⟩⟩

/-- A settled sketch is empty, or it begins with a number or a piece. -/
@[elab_as_elim]
theorem reading {P : Sketch → Prop} (nil : P []) (tag : ∀ n σ, P σ → P (.tag n :: σ))
    (piece : ∀ p σ, (∀ write, Stands p (filled write σ)) → P σ → P (ofText p.lexeme ++ σ))
    (h : Settled σ) : P σ := by
  induction hn : σ.length using Nat.strong_induction_on generalizing σ with
  | _ size ih =>
    rcases σ with _ | ⟨c | n, σ⟩
    · exact nil
    · obtain ⟨p, τ, heq, hp⟩ := exists_stands h
      rw [heq] at h hn ⊢
      have hτ : Settled τ := List.IsChain.suffix h (List.suffix_append _ τ)
      refine piece p τ hp (ih τ.length ?_ hτ rfl)
      have := List.length_pos_iff.mpr (hp Text.ofNat).lexeme_ne_nil
      rw [← hn, List.length_append, ofText, List.length_map]
      omega
    · have hσ : Settled σ := List.IsChain.suffix h (List.suffix_cons _ σ)
      refine tag n σ (ih σ.length ?_ hσ rfl)
      rw [← hn, List.length_cons]
      exact Nat.lt_succ_self _

/-- The pieces of the command that shows a number. -/
def tagPieces (numeral : Text) : List Piece :=
  [⟨.plain, ['\\', 't']⟩, ⟨.plain, ['a']⟩, ⟨.plain, ['g']⟩, ⟨.openBrace, ['{']⟩] ++
    numeral.map (fun c => ⟨.plain, [c]⟩) ++ [⟨.closeBrace, ['}']⟩]

theorem pieces_tag (hwrite : write.Plain) (n : Nat) (t : Text) :
    pieces ((Glyph.tag n).text write ++ t) = tagPieces (write n) ++ pieces t := by
  have hnumeral (u : Text) (hu : ∀ c ∈ u, IsPlain c) (v : Text) :
      pieces (u ++ v) = u.map (fun c => ⟨.plain, [c]⟩) ++ pieces v := by
    induction u with
    | nil => rfl
    | cons c u ih =>
      rw [List.forall_mem_cons] at hu
      have hc : Stands ⟨.plain, [c]⟩ (u ++ v) := .char c _ hu.1
      exact hc.pieces_eq.trans (congrArg (_ :: ·) (ih hu.2))
  have hgroup := hnumeral (write n) (fun c hc => (hwrite n c hc).1) ('}' :: t)
  have hopen : pieces ("\\tag\x7b".toList ++ (write n ++ '}' :: t)) =
      [⟨.plain, ['\\', 't']⟩, ⟨.plain, ['a']⟩, ⟨.plain, ['g']⟩, ⟨.openBrace, ['{']⟩] ++
        pieces (write n ++ '}' :: t) := rfl
  have htext : (Glyph.tag n).text write ++ t =
      "\\tag\x7b".toList ++ (write n ++ '}' :: t) := by
    simp [Glyph.text, Text.braced]
  rw [htext, hopen, hgroup, tagPieces]
  simp only [List.append_assoc]
  rfl

/-- A number ends no row, and the depth behind it is that before it. -/
theorem passes_tagPieces (d : Depth) (numeral : Text) :
    Passes d ((tagPieces numeral).map (·.mark)) d := by
  have hmarks : ((tagPieces numeral).map (·.mark)).filter (· ≠ .plain) =
      [.openBrace, .closeBrace] := by
    simp [tagPieces, Function.comp_def]
  rw [← Rows.passes_filter_iff, hmarks]
  exact .cons nofun (.cons nofun (.nil d))

theorem lexemes_tagPieces (write : Numerals) (n : Nat) :
    (tagPieces (write n)).flatMap (·.lexeme) = (Glyph.tag n).text write := by
  simp [tagPieces, Glyph.text, Text.braced, List.flatMap_map]

/-! ### Rows -/

/-- **The raw rows of a sketch** are the same for all numbers. -/
theorem exists_rawRows (h : Settled σ) : ∀ d : Depth, ∃ (first : Sketch) (rest : List Sketch),
    σ = first ++ rest.flatMap (ofText ['\\', '\\'] ++ ·) ∧
    ∀ write : Numerals, write.Plain →
      splitPieces d (pieces (filled write σ)) = filled write first :: rest.map (filled write) := by
  refine reading ?nil ?tag ?piece h
  case nil => exact fun d => ⟨[], [], rfl, fun _ _ => rfl⟩
  case tag =>
    intro n σ ih d
    obtain ⟨first, rest, hσ, hrows⟩ := ih d
    refine ⟨.tag n :: first, rest, congrArg (_ :: ·) hσ, fun write hwrite => ?_⟩
    rw [filled_cons, pieces_tag hwrite,
      Rows.splitPieces_append (passes_tagPieces d (write n)) (hrows write hwrite),
      lexemes_tagPieces, filled_cons]
  case piece =>
    intro p σ hp ih d
    have hpieces (write : Numerals) : pieces (filled write (ofText p.lexeme ++ σ)) =
        p :: pieces (filled write σ) := by
      rw [filled_append, filled_ofText, (hp write).pieces_eq]
    by_cases hend : p.mark = .separator ∧ d.isTop
    · obtain ⟨first, rest, hσ, hrows⟩ := ih d
      refine ⟨[], first :: rest, ?_, fun write hwrite => ?_⟩
      · rw [(hp Text.ofNat).lexeme_of_separator hend.1, hσ]
        simp
      · rw [hpieces, splitPieces, if_pos hend, hrows write hwrite]
        rfl
    · obtain ⟨first, rest, hσ, hrows⟩ := ih (d.after p.mark)
      refine ⟨ofText p.lexeme ++ first, rest, ?_, fun write hwrite => ?_⟩
      · rw [List.append_assoc, ← hσ]
      · rw [hpieces, Rows.splitPieces_cons hend (hrows write hwrite), filled_append, filled_ofText]

/-- Rows that are dropped from the end are empty, whatever the numbers are. -/
theorem exists_dropEmptyTail (rows : List Sketch) : ∃ kept, kept <+: rows ∧
    kept.flatMap tags = rows.flatMap tags ∧
    ∀ write, Rows.dropEmptyTail (rows.map (filled write)) = kept.map (filled write) := by
  induction rows with
  | nil => exact ⟨[], List.nil_prefix, rfl, fun _ => rfl⟩
  | cons row rows ih =>
    obtain ⟨kept, hkeeps, htags, hkept⟩ := ih
    by_cases hempty : kept = [] ∨ kept = [[]]
    · refine ⟨[row], List.cons_prefix_cons.mpr ⟨rfl, List.nil_prefix⟩, ?_, fun write => ?_⟩
      · rw [List.flatMap_cons, List.flatMap_cons, ← htags]
        rcases hempty with rfl | rfl <;> rfl
      · rw [List.map_cons, Rows.dropEmptyTail, hkept]
        rcases hempty with rfl | rfl <;> rfl
    · refine ⟨row :: kept, List.cons_prefix_cons.mpr ⟨rfl, hkeeps⟩, ?_, fun write => ?_⟩
      · rw [List.flatMap_cons, List.flatMap_cons, htags]
      · rw [List.map_cons, Rows.dropEmptyTail, hkept]
        rcases kept with _ | ⟨_ | ⟨g, ρ⟩, _ | ⟨next, kept⟩⟩
        · exact absurd (.inl rfl) hempty
        · exact absurd (.inr rfl) hempty
        · rfl
        · cases g <;> rfl
        · cases g <;> rfl

/-- A row behind a separator keeps its numbers, whether or not it begins with a spacing argument. -/
theorem exists_continued (h : Settled σ) : ∃ τ, Settled τ ∧ Led τ ∧ tags τ = tags σ ∧
    ∀ write : Numerals, write.Plain → Rows.continued (filled write σ) = filled write τ := by
  by_cases hspacing : ∃ s ρ, Rows.IsSpacing s ∧ σ = ofText s ++ ρ
  · obtain ⟨s, ρ, hs, rfl⟩ := hspacing
    have hρ : Settled ρ := List.IsChain.suffix h (List.suffix_append _ ρ)
    have hlast : (" \\\\" ++ s ++ ['\n']).getLast? ≠ some '\\' := by
      rw [List.getLast?_concat]
      decide
    refine ⟨_, hρ.strip.behind hlast, led_of_cons, by simp [tags_strip], fun write _ => ?_⟩
    have hsome : Rows.spacing? (filled write (ofText s ++ ρ)) = some (s, filled write ρ) := by
      rw [filled_append, filled_ofText]
      exact Rows.spacing?_append hs _
    rw [Rows.continued, hsome]
    simp [filled_strip]
  · have hlast : (" \\\\\n".toList).getLast? ≠ some '\\' := by decide
    refine ⟨_, h.behind hlast, led_of_cons, by simp, fun write _ => ?_⟩
    have hnone : Rows.spacing? (filled write σ) = none := by
      rw [Option.eq_none_iff_forall_ne_some]
      rintro ⟨s, rest⟩ hsome
      obtain ⟨hs, heq⟩ := Rows.spacing?_eq_some_iff.mp hsome
      have hplain : '\\' ∉ s := fun hmem => (hs.isPlain _ hmem).1 rfl
      obtain ⟨ρ, rfl⟩ := (isPrefix_filled_iff write hplain).mp ⟨rest, heq.symm⟩
      exact hspacing ⟨s, ρ, hs, rfl⟩
    rw [Rows.continued, hnone, filled_append, filled_ofText]
    rfl

/-- Texts in front of rows, by the places of the rows. -/
theorem exists_mapIdx {rows : List Sketch} (h : ∀ σ ∈ rows, Settled σ) (f : Nat → Text)
    (hf : ∀ i, (f i).getLast? ≠ some '\\') : ∃ more : List Sketch, (∀ σ ∈ more, Settled σ) ∧
      more.flatMap tags = rows.flatMap tags ∧ ∀ write,
        (rows.map (filled write)).mapIdx (fun i row => f i ++ row) = more.map (filled write) := by
  induction rows generalizing f with
  | nil => exact ⟨[], nofun, rfl, fun _ => rfl⟩
  | cons σ rows ih =>
    rw [List.forall_mem_cons] at h
    obtain ⟨more, hmore, htags, hfilled⟩ := ih h.2 (fun i => f (i + 1)) fun i => hf (i + 1)
    have hall : ∀ ρ ∈ (ofText (f 0) ++ σ) :: more, Settled ρ :=
      List.forall_mem_cons.mpr ⟨h.1.behind (hf 0), hmore⟩
    refine ⟨_, hall, ?_, ?_⟩
    · simp [htags]
    · intro write
      rw [List.map_cons, List.mapIdx_cons, hfilled, List.map_cons, filled_append, filled_ofText]

/-! ### Columns -/

theorem settled_merged {first cell more : Sketch}
    (h : Settled (first ++ .char '&' :: (cell ++ .char '&' :: more)))
    (hborder : (strip cell).getLast? = some (.char '\\') → ∀ n, more.head? ≠ some (.tag n)) :
    Settled (first ++ .char '&' :: (strip cell ++ more)) := by
  obtain ⟨hfirst, hbehind, -⟩ := List.isChain_append.mp h
  have hcells : Settled (cell ++ .char '&' :: more) :=
    List.IsChain.suffix hbehind (List.suffix_cons _ _)
  obtain ⟨hcell, hmark, -⟩ := List.isChain_append.mp hcells
  have hmore : Settled more := List.IsChain.suffix hmark (List.suffix_cons _ _)
  have hmerged : Settled (strip cell ++ more) := by
    refine List.IsChain.append (Settled.strip hcell) hmore fun g hg g' hg' hbackslash => ?_
    cases g' with
    | char c => rfl
    | tag n => exact absurd hg' (hborder (hbackslash ▸ hg) n)
  exact Settled.append hfirst (hmerged.behind (t := ['&']) (by decide)) led_of_cons

/-- **Merging columns** keeps the numbers of a row. -/
theorem exists_mergeColumns (h : Settled σ)
    (hclean : Environment.MergesCleanly (filled Text.ofNat σ)) :
    ∃ τ, Settled τ ∧ tags τ = tags σ ∧ ∀ write : Numerals, write.Plain →
      Environment.mergeColumns (filled write σ) = filled write τ := by
  have hcell {ρ : Sketch} (hρ : Glyph.char '&' ∉ ρ) {write : Numerals} (hwrite : write.Plain) :
      '&' ∉ filled write ρ :=
    not_mem_filled (by decide) (fun n hn => (hwrite n _ hn).2.1 rfl) hρ
  obtain ⟨first, rest, rfl, hfirst, hrest⟩ := exists_parts (.char '&') σ
  rcases rest with _ | ⟨cell, _ | ⟨next, rest⟩⟩
  · refine ⟨_, h, rfl, fun write hwrite => ?_⟩
    rw [List.flatMap_nil, List.append_nil]
    exact Environment.mergeColumns_of_not_mem (hcell hfirst hwrite)
  · rw [List.forall_mem_singleton] at hrest
    refine ⟨_, h, rfl, fun write hwrite => ?_⟩
    rw [filled_append]
    simp only [List.flatMap_singleton]
    exact Environment.mergeColumns_of_one (hcell hfirst hwrite) (hcell hrest hwrite)
  · rw [List.forall_mem_cons] at hrest
    -- the sketch behind the second mark
    generalize hmore : next ++ rest.flatMap (Glyph.char '&' :: ·) = more
    have hrow : first ++ (cell :: next :: rest).flatMap (Glyph.char '&' :: ·) =
        first ++ .char '&' :: (cell ++ .char '&' :: more) := by
      simp [← hmore]
    rw [hrow] at h hclean ⊢
    refine ⟨first ++ .char '&' :: (strip cell ++ more), ?_, ?_, fun write hwrite => ?_⟩
    · refine settled_merged h fun hlast n hhead => ?_
      refine hclean (filled Text.ofNat first) (filled Text.ofNat cell) (filled Text.ofNat more)
        (by simp [Glyph.text]) (hcell hfirst Numerals.plain_ofNat)
        (hcell hrest.1 Numerals.plain_ofNat) ⟨?_, ?_⟩
      · rw [← filled_strip, ← List.dropLast_append_getLast? _ hlast, filled_append]
        exact List.getLast?_concat
      · rw [List.eq_cons_of_mem_head? hhead]
        exact ⟨Text.ofNat n ++ '}' :: filled Text.ofNat more.tail, by
          simp [Glyph.text, Text.braced]⟩
    · simp [tags_strip]
    · have := Environment.mergeColumns_of_two (hcell hfirst hwrite) (hcell hrest.1 hwrite)
        (filled write more)
      simpa [filled_strip, Glyph.text] using this

end Sketch

open Sketch

section

variable {d : Numerals → Text} {ds : Numerals → List Text} {ns : List Nat}

/-- **Dividing into rows** keeps numbers whole. -/
theorem Carries.split (h : Carries d ns) : CarriesAll (fun write => Rows.split (d write)) ns := by
  obtain ⟨σ, hσ, rfl, hd⟩ := h
  obtain ⟨first, rest, rfl, hrows⟩ := exists_rawRows hσ Rows.top
  have hraw : CarriesAll (fun write => Rows.rawRows (d write))
      (tags (first ++ rest.flatMap (ofText ['\\', '\\'] ++ ·))) := by
    refine ⟨first :: rest, hσ.parts (ofText ['\\', '\\']), (tags_parts _).symm, ?_⟩
    intro write hwrite
    dsimp only
    rw [hd write hwrite, Rows.rawRows, hrows write hwrite, List.map_cons]
  obtain ⟨σs, hσs, hns, hds⟩ := hraw.map fun σ hσ _ => (carries_filled hσ).strip
  obtain ⟨kept, hkeeps, htags, hkept⟩ := exists_dropEmptyTail σs
  refine ⟨kept, fun σ hσ => hσs σ (hkeeps.subset hσ), htags.trans hns, fun write hwrite => ?_⟩
  rw [← hkept, ← hds write hwrite]
  rfl

/-- **Joining rows** keeps their numbers. -/
theorem CarriesAll.join (h : CarriesAll ds ns) :
    Carries (fun write => Rows.join (ds write)) ns := by
  refine (h.joinedBy fun σ hσ => exists_continued hσ).congr fun write _ => ?_
  cases ds write <;> rfl

theorem Carries.reflow (h : Carries d ns) : Carries (fun write => Rows.reflow (d write)) ns :=
  h.split.join

/-- **Indenting rows** keeps their numbers. -/
theorem CarriesAll.indentedRows (h : CarriesAll ds ns) :
    CarriesAll (fun write => Environment.indentedRows (ds write)) ns := by
  obtain ⟨σs, hσs, rfl, hds⟩ := h
  obtain ⟨τs, hτs, htags, hfilled⟩ := exists_mapIdx hσs (Environment.indentation σs.length) (by
    intro i
    obtain ⟨word, -, -, hword, -⟩ := Environment.indentation_cases σs.length i
    simp [hword])
  refine ⟨τs, hτs, htags, fun write hwrite => ?_⟩
  dsimp only
  rw [hds write hwrite, Environment.indentedRows_eq, List.length_map, hfilled]

theorem Carries.wrapped (h : Carries d ns) (name argument : Text) :
    Carries (fun write => Environment.wrapped name argument (d write)) ns := by
  have hlast : (Markup.beginMarker name ++ argument ++ ['\n']).getLast? ≠ some '\\' := by simp
  refine (h.between hlast ('\n' :: Markup.endMarker name)).congr fun write _ => ?_
  simp [Environment.wrapped]

/-- A formula with its number behind it. -/
theorem Carries.tagged (h : Carries d ns) (n : Nat) :
    Carries (fun write => d write ++ " \\tag" ++ Text.braced (write n)) (ns ++ [n]) := by
  obtain ⟨σ, hσ, rfl, hd⟩ := h
  have htag : Settled [.char ' ', .tag n] := List.isChain_cons_cons.mpr ⟨nofun, .singleton _⟩
  refine ⟨σ ++ [.char ' ', .tag n], hσ.append htag led_of_cons, by simp, fun write hwrite => ?_⟩
  simp [hd write hwrite, Glyph.text]

end

end TexMark
