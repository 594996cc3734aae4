/-
  TexMark/Proofs/Rows/Pieces.lean
  ===============================
  **Formulas piece by piece.**  Whether a piece is read as such depends on what follows it
  (`Piece.Stands`), and a text is either empty or a piece with a text behind it (`reading`).
  Where a text can be cut in two without cutting a command, its pieces are those of both parts
  (`pieces_append`).

  Only some pieces count for the division into rows (`marks`), and blanks at the margins of a
  text are not among them (`marks_strip`).  Raw rows are what stands between the separators
  that count.  They make up the formula (`join_rawRows`), each of them ends where it began as
  far as braces and environments go (`isRows_rawRows`), and whatever has these two properties
  is the raw rows of a formula (`rawRows_join`).
-/
import TexMark.Markup.Rows
import TexMark.Proofs.Lines
import TexMark.Proofs.Scans

namespace TexMark.Rows

open Text (isBlank isLetter strip)
open Scan (escapedBehind escapedBehind_append)

variable {r t u v rest : Text} {p : Piece} {ps : List Piece} {rs : List Text}

/-! ### One piece -/

def IsPlain (c : Char) : Prop := c ≠ '\\' ∧ c ≠ '{' ∧ c ≠ '}'

instance : DecidablePred IsPlain := fun _ => inferInstanceAs (Decidable (_ ∧ _))

/-- Where `rest` follows it, a piece is read as such. -/
inductive Piece.Stands : Piece → Text → Prop where
  | separator (rest : Text) : Stands ⟨.separator, ['\\', '\\']⟩ rest
  | enter (rest : Text) : Stands ⟨.enter, "\\begin"⟩ rest
  | leave (rest : Text) : Stands ⟨if letterFollows rest then .plain else .leave, "\\end"⟩ rest
  | escaped (c : Char) (rest : Text) (hseparator : c ≠ '\\')
    (hbegin : ¬ ['b', 'e', 'g', 'i', 'n'] <+: c :: rest) (hend : ¬ ['e', 'n', 'd'] <+: c :: rest) :
    Stands ⟨.plain, ['\\', c]⟩ rest
  | openBrace (rest : Text) : Stands ⟨.openBrace, ['{']⟩ rest
  | closeBrace (rest : Text) : Stands ⟨.closeBrace, ['}']⟩ rest
  | char (c : Char) (rest : Text) (hc : IsPlain c) : Stands ⟨.plain, [c]⟩ rest
  /-- A backslash at the end of the text. -/
  | lone : Stands ⟨.plain, ['\\']⟩ []

open Piece (Stands)

theorem isPlain_of (among : Char → Bool)
    (hamong : among '\\' = false ∧ among '{' = false ∧ among '}' = false) {c : Char}
    (hc : among c) : IsPlain c := by
  have hne {d : Char} (hd : among d = false) : c ≠ d := by
    rintro rfl
    rw [hd] at hc
    cases hc
  exact ⟨hne hamong.1, hne hamong.2.1, hne hamong.2.2⟩

theorem exists_stands (ht : t ≠ []) : ∃ p rest, t = p.lexeme ++ rest ∧ Stands p rest := by
  fun_cases pieces t with
  | case1 => exact absurd rfl ht
  | case2 rest => exact ⟨_, rest, rfl, .separator rest⟩
  | case3 rest => exact ⟨_, rest, rfl, .enter rest⟩
  | case4 rest => exact ⟨_, rest, rfl, .leave rest⟩
  | case5 c rest hseparator hbegin hend =>
    refine ⟨_, rest, rfl, .escaped c rest hseparator ?_ ?_⟩
    · rintro ⟨more, hmore⟩
      cases hmore
      exact hbegin more rfl rfl
    · rintro ⟨more, hmore⟩
      cases hmore
      exact hend more rfl rfl
  | case6 rest => exact ⟨_, rest, rfl, .openBrace rest⟩
  | case7 rest => exact ⟨_, rest, rfl, .closeBrace rest⟩
  | case8 c rest _ _ _ hescaped hopen hclose =>
    by_cases hc : c = '\\'
    · cases rest with
      | nil =>
        rw [hc]
        exact ⟨_, [], rfl, .lone⟩
      | cons d rest => exact absurd rfl (hescaped d rest hc)
    · exact ⟨_, rest, rfl, .char c rest ⟨hc, hopen, hclose⟩⟩

namespace Piece.Stands

theorem pieces_eq (h : Stands p rest) : pieces (p.lexeme ++ rest) = p :: pieces rest := by
  cases h with
  | separator => exact pieces.eq_2 rest
  | enter => exact pieces.eq_3 rest
  | leave => exact pieces.eq_4 rest
  | escaped c rest hseparator hbegin hend =>
    refine pieces.eq_5 c rest hseparator ?_ ?_
    · rintro more rfl rfl
      exact hbegin ⟨more, rfl⟩
    · rintro more rfl rfl
      exact hend ⟨more, rfl⟩
  | openBrace => exact pieces.eq_6 rest
  | closeBrace => exact pieces.eq_7 rest
  | char c rest hc =>
    obtain ⟨hbackslash, hopen, hclose⟩ := hc
    rw [List.singleton_append, pieces] <;> simp_all
  | lone => rfl

theorem lexeme_ne_nil (h : Stands p rest) : p.lexeme ≠ [] := by
  cases h <;> simp

/-- Behind a piece nothing is escaped, unless it is a lone backslash. -/
theorem escapedBehind_lexeme (h : Stands p rest) (hp : p.lexeme ≠ ['\\']) :
    escapedBehind false p.lexeme = false := by
  cases h with
  | char c rest hc => simp [hc.1]
  | escaped c rest => simp
  | lone => exact absurd rfl hp
  | _ => rfl

theorem eq_nil (h : Stands p rest) (hp : p.lexeme = ['\\']) : rest = [] := by
  cases h with
  | char c rest hc =>
    cases hp
    exact absurd rfl hc.1
  | lone => rfl
  | _ => cases hp

theorem lexeme_of_separator (h : Stands p rest) (hp : p.mark = .separator) :
    p.lexeme = ['\\', '\\'] := by
  cases h with
  | separator => rfl
  | leave => split at hp <;> cases hp
  | _ => cases hp

end Piece.Stands

/-- A text is empty, or it is a piece with a text behind it. -/
theorem reading {P : Text → Prop} (nil : P [])
    (piece : ∀ p rest, Stands p rest → P rest → P (p.lexeme ++ rest)) (t : Text) : P t := by
  induction hn : t.length using Nat.strong_induction_on generalizing t with
  | _ n ih =>
    by_cases ht : t = []
    · rw [ht]
      exact nil
    · obtain ⟨p, rest, rfl, hp⟩ := exists_stands ht
      refine piece p rest hp (ih rest.length ?_ rest rfl)
      have := List.length_pos_iff.mpr hp.lexeme_ne_nil
      rw [← hn, List.length_append]
      omega

/-! ### Texts one behind the other -/

/-- A word does not go on behind a text where no letter follows. -/
theorem isPrefix_append_iff {w : Text} (hw : w.all isLetter) (hu : letterFollows u = false) :
    w <+: r ++ u ↔ w <+: r := by
  refine ⟨fun h => ?_, fun h => h.trans (List.prefix_append r u)⟩
  rw [List.all_eq_true] at hw
  induction w generalizing r with
  | nil => exact List.nil_prefix
  | cons c w ih =>
    cases r with
    | nil =>
      obtain ⟨more, rfl⟩ := h
      have hletter : isLetter c = false := hu
      exact absurd (hw c List.mem_cons_self) (by simp [hletter])
    | cons d r =>
      obtain ⟨rfl, htail⟩ := List.cons_prefix_cons.mp h
      exact List.cons_prefix_cons.mpr
        ⟨rfl, ih (fun x hx => hw x (List.mem_cons_of_mem c hx)) htail⟩

theorem letterFollows_append (hu : letterFollows u = false) (r : Text) :
    letterFollows (r ++ u) = letterFollows r := by
  cases r with
  | nil => exact hu
  | cons c r => rfl

/-- What a piece is read as does not depend on a text further on where no letter follows. -/
theorem stands_append_iff (hp : p.lexeme ≠ ['\\']) (hu : letterFollows u = false) :
    Stands p (r ++ u) ↔ Stands p r := by
  have hbegin (c : Char) : ['b', 'e', 'g', 'i', 'n'] <+: c :: (r ++ u) ↔
      ['b', 'e', 'g', 'i', 'n'] <+: c :: r := isPrefix_append_iff (r := c :: r) (by decide) hu
  have hend (c : Char) : ['e', 'n', 'd'] <+: c :: (r ++ u) ↔ ['e', 'n', 'd'] <+: c :: r :=
    isPrefix_append_iff (r := c :: r) (by decide) hu
  constructor
  · intro h
    generalize hx : r ++ u = x at h
    cases h with
    | separator => exact .separator r
    | enter => exact .enter r
    | leave =>
      rw [← hx, letterFollows_append hu]
      exact .leave r
    | escaped c _ hseparator hb he =>
      subst hx
      exact .escaped c r hseparator (mt (hbegin c).mpr hb) (mt (hend c).mpr he)
    | openBrace => exact .openBrace r
    | closeBrace => exact .closeBrace r
    | char c _ hc => exact .char c r hc
    | lone => exact absurd rfl hp
  · intro h
    cases h with
    | separator => exact .separator _
    | enter => exact .enter _
    | leave =>
      rw [← letterFollows_append hu]
      exact .leave _
    | escaped c _ hseparator hb he =>
      exact .escaped c _ hseparator (mt (hbegin c).mp hb) (mt (hend c).mp he)
    | openBrace => exact .openBrace _
    | closeBrace => exact .closeBrace _
    | char c _ hc => exact .char c _ hc
    | lone => exact absurd rfl hp

/-- **The pieces of two texts.**  No piece crosses the border of two texts if its first
    character is not escaped and no letter. -/
theorem pieces_append (hr : escapedBehind false r = false) (hu : letterFollows u = false) :
    pieces (r ++ u) = pieces r ++ pieces u := by
  induction r using reading with
  | nil => rfl
  | piece p rest hp ih =>
    by_cases hlone : p.lexeme = ['\\']
    · rw [hp.eq_nil hlone, hlone] at hr
      cases hr
    · rw [escapedBehind_append, hp.escapedBehind_lexeme hlone] at hr
      rw [List.append_assoc, hp.pieces_eq, ((stands_append_iff hlone hu).mpr hp).pieces_eq, ih hr,
        List.cons_append]

/-! ### What counts for the rows -/

/-- The marks of a text that have to do with rows. -/
def marks (t : Text) : List Mark := ((pieces t).map (·.mark)).filter (· ≠ .plain)

theorem marks_piece (h : Stands p rest) :
    marks (p.lexeme ++ rest) = (if p.mark = .plain then [] else [p.mark]) ++ marks rest := by
  rw [marks, marks, h.pieces_eq, List.map_cons, List.filter_cons]
  split <;> simp_all

theorem marks_append_left (hu : ∀ c ∈ u, IsPlain c) (t : Text) :
    marks (u ++ t) = marks t := by
  induction u with
  | nil => rfl
  | cons c u ih =>
    rw [List.forall_mem_cons] at hu
    have hc : Stands ⟨.plain, [c]⟩ (u ++ t) := .char c _ hu.1
    exact (marks_piece hc).trans (ih hu.2)

def blankCodes : List Nat :=
  List.range' 9 5 ++ List.range' 28 5 ++ List.range' 0x2000 11 ++
    [0x85, 0xA0, 0x1680, 0x2028, 0x2029, 0x202F, 0x205F, 0x3000]

/-- A class without the code points of blanks holds no blank. -/
theorem eq_false_of_isBlank (among : Char → Bool)
    (hamong : ∀ n ∈ blankCodes, among (Char.ofNat n) = false) {c : Char} (hc : isBlank c) :
    among c = false := by
  have hcode : c.toNat ∈ blankCodes := by
    simp only [isBlank, Bool.or_eq_true, Bool.and_eq_true, decide_eq_true_eq, beq_iff_eq] at hc
    simp only [blankCodes, List.mem_append, List.mem_range'_1, List.mem_cons]
    omega
  rw [← Char.ofNat_toNat c]
  exact hamong c.toNat hcode

theorem isLetter_of_isBlank {c : Char} (hc : isBlank c) : isLetter c = false :=
  eq_false_of_isBlank isLetter (by decide +kernel) hc

theorem letterFollows_of_isBlank (hv : ∀ c ∈ v, isBlank c) : letterFollows v = false := by
  cases v with
  | nil => rfl
  | cons c v => exact isLetter_of_isBlank (hv c List.mem_cons_self)

theorem isPlain_of_isBlank {c : Char} (hc : isBlank c) : IsPlain c :=
  isPlain_of isBlank (by decide) hc

theorem marks_eq_nil (hv : ∀ c ∈ v, isBlank c) : marks v = [] := by
  have := marks_append_left (fun c hc => isPlain_of_isBlank (hv c hc)) []
  rwa [List.append_nil] at this

/-- Blanks behind a text do not count, not even one that is escaped. -/
theorem marks_append_blank (hv : ∀ c ∈ v, isBlank c) (t : Text) : marks (t ++ v) = marks t := by
  induction t using reading with
  | nil => exact marks_eq_nil hv
  | piece p rest hp ih =>
    by_cases hlone : p.lexeme = ['\\']
    · -- the blank is now read with the backslash, in a piece of its own
      rw [hp.eq_nil hlone, hlone, List.append_nil]
      cases v with
      | nil => rfl
      | cons c v =>
        rw [List.forall_mem_cons] at hv
        have hc : Stands ⟨.plain, ['\\', c]⟩ v := by
          have hletter {d : Char} (hd : isLetter d = true) : d ≠ c := by
            rintro rfl
            rw [isLetter_of_isBlank hv.1] at hd
            cases hd
          refine .escaped c v (isPlain_of_isBlank hv.1).1 (fun h => ?_) fun h => ?_
          · exact hletter (by decide) (List.cons_prefix_cons.mp h).1
          · exact hletter (by decide) (List.cons_prefix_cons.mp h).1
        exact (marks_piece hc).trans (marks_eq_nil hv.2)
    · have hu : letterFollows v = false := letterFollows_of_isBlank hv
      rw [List.append_assoc, marks_piece hp, marks_piece ((stands_append_iff hlone hu).mpr hp), ih]

theorem marks_strip (t : Text) : marks (strip t) = marks t := by
  obtain ⟨u, v, ht, hu, hv⟩ := Text.exists_strip t
  rw [ht, marks_append_left (fun c hc => isPlain_of_isBlank (hu c hc)), marks_append_blank hv, ← ht]

theorem splitPieces_ne_nil (d : Depth) (ps : List Piece) : splitPieces d ps ≠ [] := by
  fun_cases splitPieces d ps <;> simp

/-- The marks lead from one depth to the other, and none of them ends a row. -/
inductive Passes : Depth → List Mark → Depth → Prop where
  | nil (d : Depth) : Passes d [] d
  | cons {d d' : Depth} {m : Mark} {ms : List Mark} (hm : ¬ (m = .separator ∧ d.isTop))
    (hms : Passes (d.after m) ms d') : Passes d (m :: ms) d'

theorem passes_filter_iff {d d' : Depth} {ms : List Mark} :
    Passes d (ms.filter (· ≠ .plain)) d' ↔ Passes d ms d' := by
  induction ms generalizing d with
  | nil => rfl
  | cons m ms ih =>
    by_cases hm : m = .plain
    · subst hm
      rw [List.filter_cons_of_neg (by decide), ih]
      exact ⟨fun h => .cons (by simp) h, fun h => by cases h with | cons _ h => exact h⟩
    · rw [List.filter_cons_of_pos (by simpa using hm)]
      constructor
      · intro h
        cases h with | cons hm h => exact .cons hm (ih.mp h)
      · intro h
        cases h with | cons hm h => exact .cons hm (ih.mpr h)

theorem splitPieces_cons {d : Depth} (hp : ¬ (p.mark = .separator ∧ d.isTop)) {row : Text}
    {rows : List Text} (hps : splitPieces (d.after p.mark) ps = row :: rows) :
    splitPieces d (p :: ps) = (p.lexeme ++ row) :: rows := by
  rw [splitPieces, if_neg hp, hps]

/-- Pieces that end no row belong to the row of what follows them. -/
theorem splitPieces_append {d d' : Depth} {qs : List Piece} {row : Text} {rows : List Text}
    (hps : Passes d (ps.map (·.mark)) d') (hqs : splitPieces d' qs = row :: rows) :
    splitPieces d (ps ++ qs) = (ps.flatMap (·.lexeme) ++ row) :: rows := by
  induction ps generalizing d with
  | nil =>
    cases hps
    exact hqs
  | cons p ps ih =>
    cases hps with
    | cons hp hps =>
      rw [List.cons_append, splitPieces_cons hp (ih hps), List.flatMap_cons, List.append_assoc]

/-! ### Raw rows -/

/-- Outside braces and nested environments. -/
abbrev top : Depth := ⟨0, 0⟩

theorem eq_top {d : Depth} (h : d.isTop) : d = top := by
  obtain ⟨b, e⟩ := d
  simpa [Depth.isTop] using h

/-- The rows of a formula as they stand between the separators. -/
def rawRows (content : Text) : List Text := splitPieces top (pieces content)

/-- From a depth on, no separator ends a row but those that stand between the rows. -/
inductive IsRows : Depth → List Text → Prop where
  | last {d d' : Depth} {r : Text} (hr : Passes d (marks r) d') : IsRows d [r]
  | cons {d : Depth} {r : Text} {rs : List Text} (hr : Passes d (marks r) top)
    (hrs : IsRows top rs) : IsRows d (r :: rs)

theorem IsRows.piece {d : Depth} (hp : ¬ (p.mark = .separator ∧ d.isTop)) (hrest : Stands p r)
    (h : IsRows (d.after p.mark) (r :: rs)) : IsRows d ((p.lexeme ++ r) :: rs) := by
  have hmarks {d' : Depth} (hr : Passes (d.after p.mark) (marks r) d') :
      Passes d (marks (p.lexeme ++ r)) d' := by
    rw [marks, hrest.pieces_eq, passes_filter_iff]
    exact .cons hp (passes_filter_iff.mp hr)
  cases h with
  | last hr => exact .last (hmarks hr)
  | cons hr hrs => exact .cons (hmarks hr) hrs

theorem join_cons_of_ne_nil (hrs : rs ≠ []) (r : Text) :
    Text.join "\\\\" (r :: rs) = r ++ '\\' :: '\\' :: Text.join "\\\\" rs := by
  obtain ⟨next, more, rfl⟩ := List.exists_cons_of_ne_nil hrs
  simp [Text.join_cons]

/-- Raw rows make up the formula, and they are rows. -/
theorem splitPieces_pieces (d : Depth) (t : Text) :
    Text.join "\\\\" (splitPieces d (pieces t)) = t ∧ IsRows d (splitPieces d (pieces t)) := by
  induction t using reading generalizing d with
  | nil => exact ⟨rfl, .last (.nil d)⟩
  | piece p rest hp ih =>
    rw [hp.pieces_eq]
    by_cases hend : p.mark = .separator ∧ d.isTop
    · obtain ⟨hjoin, hrows⟩ := ih d
      rw [splitPieces, if_pos hend]
      obtain rfl := eq_top hend.2
      refine ⟨?_, .cons (.nil top) hrows⟩
      rw [join_cons_of_ne_nil (splitPieces_ne_nil top _), hjoin, hp.lexeme_of_separator hend.1]
      rfl
    · obtain ⟨hjoin, hrows⟩ := ih (d.after p.mark)
      obtain ⟨row, rows, hsplit⟩ :=
        List.exists_cons_of_ne_nil (splitPieces_ne_nil (d.after p.mark) (pieces rest))
      rw [splitPieces_cons hend hsplit, Text.join_cons]
      rw [hsplit] at hjoin hrows
      rw [Text.join_cons] at hjoin
      refine ⟨by rw [List.append_assoc, hjoin], .piece hend ?_ hrows⟩
      rw [← hjoin] at hp
      -- what follows the first row begins with a backslash
      have hnext : letterFollows (rows.flatMap ("\\\\".toList ++ ·)) = false := by
        cases rows <;> rfl
      by_cases hlone : p.lexeme = ['\\']
      · have hnil := hp.eq_nil hlone
        rw [hnil] at hp
        rwa [(List.append_eq_nil_iff.mp hnil).1]
      · exact (stands_append_iff hlone hnext).mp hp

theorem join_rawRows (c : Text) : Text.join "\\\\" (rawRows c) = c := (splitPieces_pieces top c).1

theorem isRows_rawRows (c : Text) : IsRows top (rawRows c) := (splitPieces_pieces top c).2

theorem IsRows.ne_nil {d : Depth} (h : IsRows d rs) : rs ≠ [] := by
  cases h <;> simp

/-- **Raw rows are read back.** -/
theorem splitPieces_join {d : Depth} (h : IsRows d rs)
    (hescaped : ∀ r ∈ rs.dropLast, escapedBehind false r = false) :
    splitPieces d (pieces (Text.join "\\\\" rs)) = rs := by
  induction h with
  | @last d d' r hr =>
    have hnil : splitPieces d' [] = [[]] := rfl
    have := splitPieces_append (passes_filter_iff.mp hr) hnil
    rw [List.append_nil, List.append_nil, flatMap_lexeme_pieces] at this
    rwa [Text.join_cons, List.flatMap_nil, List.append_nil]
  | @cons d r rs hr hrs ih =>
    rw [List.dropLast_cons_of_ne_nil hrs.ne_nil, List.forall_mem_cons] at hescaped
    have hseparator : splitPieces top (pieces ('\\' :: '\\' :: Text.join "\\\\" rs)) =
        [] :: rs := by
      rw [pieces.eq_2, splitPieces, if_pos ⟨rfl, rfl⟩, ih hescaped.2]
    rw [join_cons_of_ne_nil hrs.ne_nil, pieces_append hescaped.1 rfl,
      splitPieces_append (passes_filter_iff.mp hr) hseparator, flatMap_lexeme_pieces,
      List.append_nil]

end TexMark.Rows
