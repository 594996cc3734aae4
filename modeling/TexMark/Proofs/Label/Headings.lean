/-
  TexMark/Proofs/Label/Headings.lean
  ==================================
  **Labels of sections.**  A label behind a sectioning command names the section if the scan for
  markers reads the command (`classify_sectioning`).  It does so exactly if

    * the heading holds no braces: a heading is read up to the first brace (`heading?_spec`);
    * no marker that begins before the command goes on into it.  Of all markers only the head of a
      callout can do that, and only if a line of the heading begins with a quote marker
      (`quoted_of_crossing`).

  A heading with a group in it, however well balanced, is passed over, and the label takes its name
  from whatever stands before the section (`named_by_equation`).
-/
import TexMark.Proofs.Groups
import TexMark.Proofs.Label.Callouts

namespace TexMark.Label

open Text (isAsciiLetter isBlank isBlankText strip)

/-! ### Sectioning commands -/

/-- A text that is one **sectioning command** with its heading in braces. -/
def IsSectioning (command title : Text) : Prop :=
  ∃ name ∈ headingNames, ∃ star gap, (star = [] ∨ star = ['*']) ∧ (∀ c ∈ gap, isBlank c) ∧
    command = '\\' :: (name ++ star ++ gap) ++ '{' :: (title ++ ['}'])

/-- A text without braces. -/
def Flat (t : Text) : Prop := ∀ c ∈ t, c ≠ '{' ∧ c ≠ '}'

theorem Flat.of_strip {t : Text} (h : Flat (strip t)) : Flat t := by
  obtain ⟨u, v, ht, hu, hv⟩ := Text.exists_strip t
  have hblank : ∀ c, isBlank c → c ≠ '{' ∧ c ≠ '}' := by
    intro c hc
    constructor <;> rintro rfl <;> exact absurd hc (by decide)
  rw [ht]
  intro c hc
  rcases List.mem_append.mp hc with hc | hc
  · exact hblank c (hu c hc)
  · rcases List.mem_append.mp hc with hc | hc
    · exact h c hc
    · exact hblank c (hv c hc)

namespace IsSectioning

variable {command title : Text}

/-- What stands before the heading: letters, a star perhaps, and blanks. -/
theorem exists_front (h : IsSectioning command title) : ∃ front,
    command = '\\' :: (front ++ '{' :: (title ++ ['}'])) ∧
      ∀ c, isAsciiLetter c = false → c ≠ '*' → isBlank c = false → c ∉ front := by
  obtain ⟨name, hname, star, gap, hstar, hgap, rfl⟩ := h
  refine ⟨name ++ star ++ gap, rfl, ?_⟩
  intro c hletter hne hblank hmem
  have hletters : ∀ d ∈ name, isAsciiLetter d :=
    List.all_eq_true.mp (List.all_eq_true.mp (by decide :
      headingNames.all fun name => name.all isAsciiLetter) name hname)
  rcases List.mem_append.mp hmem with hmem | hmem
  · rcases List.mem_append.mp hmem with hmem | hmem
    · exact absurd (hletters c hmem) (by simp [hletter])
    · rcases hstar with rfl | rfl
      · cases hmem
      · exact hne (List.mem_singleton.mp hmem)
  · exact absurd (hgap c hmem) (by simp [hblank])

/-- **A flat heading is read**, whatever stands before the command. -/
theorem marker_eq (h : IsSectioning command title) (htitle : Flat title) (before : Text) :
    marker before command = some (.heading title, []) := by
  obtain ⟨name, hname, star, gap, hstar, hgap, rfl⟩ := h
  have hskip : Text.skipBlanks (gap ++ '{' :: (title ++ ['}'])) = '{' :: (title ++ ['}']) := by
    rw [Text.skipBlanks, List.dropWhile_append_of_pos hgap]
    exact List.dropWhile_cons_of_neg (by decide)
  have hbraces : Markup.flatBraces? ('{' :: (title ++ ['}'])) = some (title, []) :=
    Markup.flatBraces?_eq_some_iff.mpr ⟨rfl, htitle⟩
  have hstarred : Markup.star (star ++ (gap ++ '{' :: (title ++ ['}']))) =
      (!star.isEmpty, gap ++ '{' :: (title ++ ['}'])) := by
    rcases hstar with rfl | rfl
    · have hhead : (gap ++ '{' :: (title ++ ['}'])).head? ≠ some '*' := by
        cases gap with
        | nil => exact fun h => absurd (Option.some.inj h) (by decide)
        | cons c gap =>
          rintro ⟨⟩
          exact absurd (hgap '*' List.mem_cons_self) (by decide)
      unfold Markup.star
      split
      · rename_i hstar
        rw [List.nil_append] at hstar
        rw [hstar] at hhead
        exact absurd rfl hhead
      · rfl
    · rfl
  have hone : Markup.oneOf? headingNames ('\\' :: (name ++ star ++ gap) ++ '{' :: (title ++ ['}'])) =
      some (name, star ++ (gap ++ '{' :: (title ++ ['}']))) := by
    simp only [headingNames, List.mem_cons, List.not_mem_nil, or_false] at hname
    rcases hname with rfl | rfl | rfl | rfl <;>
      simp [Markup.oneOf?, headingNames, Markup.command?, Text.dropPrefix?]
  have hshort : Markup.flatBrackets? ('{' :: (title ++ ['}'])) = none := rfl
  have hheading : heading? ('\\' :: (name ++ star ++ gap) ++ '{' :: (title ++ ['}'])) =
      some (title, []) := by
    simp only [heading?, Option.bind_eq_bind, hone, Option.bind_some, hstarred, hskip, hshort]
    exact hbraces
  have hother : ∀ word ∈ (["begin", "end"] : List Text),
      Markup.command? word ('\\' :: (name ++ star ++ gap) ++ '{' :: (title ++ ['}'])) = none := by
    simp only [headingNames, List.mem_cons, List.not_mem_nil, or_false] at hname ⊢
    rintro word (rfl | rfl) <;> rcases hname with rfl | rfl | rfl | rfl <;> rfl
  unfold marker
  rw [hother _ (by simp), hother _ (by simp), hheading]
  rfl

end IsSectioning

/-! ### What markers take -/

/-- A bracket pair without a closing bracket in it. -/
theorem flatBrackets?_spec {t inner rest : Text}
    (h : Markup.flatBrackets? t = some (inner, rest)) : t = '[' :: (inner ++ ']' :: rest) := by
  simp only [Markup.flatBrackets?, Markup.run, Option.bind_eq_bind, Option.pure_def,
    Option.bind_eq_some_iff, Option.some.injEq, Prod.mk.injEq, Markup.char?_eq_some_iff] at h
  obtain ⟨opened, rfl, closed, hclosed, rfl, rfl⟩ := h
  rw [← hclosed, List.takeWhile_append_dropWhile]

theorem exists_skipBlanks (t : Text) : ∃ gap, t = gap ++ Text.skipBlanks t ∧ ∀ c ∈ gap, isBlank c :=
  ⟨t.takeWhile isBlank, List.takeWhile_append_dropWhile.symm, fun _ => List.mem_takeWhile_imp⟩

theorem exists_star (t : Text) : ∃ star, t = star ++ (Markup.star t).2 ∧ '\\' ∉ star := by
  unfold Markup.star
  split
  · exact ⟨['*'], rfl, by decide⟩
  · exact ⟨[], rfl, by decide⟩

theorem bracedOneOf?_spec {names : List Text} (hnames : ∀ name ∈ names, '\\' ∉ name)
    {t name rest : Text} (h : bracedOneOf? names t = some (name, rest)) :
    ∃ w, t = w ++ rest ∧ '\\' ∉ w := by
  simp only [bracedOneOf?, Option.bind_eq_bind, Option.pure_def, Option.bind_eq_some_iff,
    Option.some.injEq, Prod.mk.injEq, Markup.char?_eq_some_iff] at h
  obtain ⟨opened, hopened, ⟨name', afterName⟩, hname, after, hclosed, -, rfl⟩ := h
  obtain ⟨name'', hmem, hdrop⟩ := List.exists_of_findSome?_eq_some hname
  obtain ⟨after', hdrop, heq⟩ := Option.map_eq_some_iff.mp hdrop
  cases heq
  have hopened' : opened = name' ++ afterName := Text.dropPrefix?_eq_some_iff.mp hdrop
  obtain ⟨gap, hgap, hblank⟩ := exists_skipBlanks t
  obtain ⟨star, hafterName, hstar⟩ := exists_star afterName
  have hgap' : '\\' ∉ gap := fun hmem => (Text.ne_of_isBlank (hblank _ hmem)).1 rfl
  refine ⟨gap ++ '{' :: (name' ++ star ++ ['}']), ?_, by simp [hgap', hnames name' hmem, hstar]⟩
  rw [hgap, hopened, hopened', hafterName, hclosed]
  simp

/-- **A heading as it is read**: what stands before the brace holds one backslash only, unless there
    is a short title. -/
theorem heading?_spec {t title rest : Text} (h : heading? t = some (title, rest)) :
    ∃ u gap, t = '\\' :: (u ++ gap) ++ '{' :: (title ++ '}' :: rest) ∧ Flat title ∧
      (∀ c ∈ gap, isBlank c) ∧ ('\\' ∉ u ∨ ∃ w, u = w ++ [']']) := by
  simp only [heading?, Option.bind_eq_bind, Option.bind_eq_some_iff] at h
  obtain ⟨⟨name, afterName⟩, hname, htitle⟩ := h
  obtain ⟨name', hmem, hcommand⟩ := List.exists_of_findSome?_eq_some hname
  obtain ⟨after, hcommand, heq⟩ := Option.map_eq_some_iff.mp hcommand
  cases heq
  have ht : t = '\\' :: name ++ afterName := Text.dropPrefix?_eq_some_iff.mp hcommand
  have hletters : '\\' ∉ name :=
    List.all_iff_forall_prop.mp (by decide : headingNames.all fun name => '\\' ∉ name) name hmem
  obtain ⟨star, hstar, hnotStar⟩ := exists_star afterName
  obtain ⟨gap, hgap, hblank⟩ := exists_skipBlanks (Markup.star afterName).2
  dsimp only at htitle
  split at htitle
  · -- a short title stands between the name and the heading
    rename_i inner behind hshort
    obtain ⟨gap', hgap', hblank'⟩ := exists_skipBlanks behind
    obtain ⟨htail, hflat⟩ := Markup.flatBraces?_eq_some_iff.mp htitle
    refine ⟨name ++ star ++ gap ++ '[' :: inner ++ [']'], gap', ?_, hflat, hblank',
      .inr ⟨_, rfl⟩⟩
    rw [ht, hstar, hgap, flatBrackets?_spec hshort, hgap', htail]
    simp
  · obtain ⟨htail, hflat⟩ := Markup.flatBraces?_eq_some_iff.mp htitle
    refine ⟨name ++ star, gap, ?_, hflat, hblank, .inl (by simp [hletters, hnotStar])⟩
    rw [ht, hstar, hgap, htail]
    simp

/-- **What a marker takes**: no backslash behind its first character, unless it is a heading or the
    head of a callout. -/
theorem marker_cases {before t after : Text} {m : Marker} (h : marker before t = some (m, after)) :
    (∃ c w, t = c :: (w ++ after) ∧ '\\' ∉ w ∧ ∀ title, m ≠ .heading title) ∨
      (∃ title, m = .heading title ∧ heading? t = some (title, after)) ∨
      callout? t = some (m, after) := by
  have hcommand : ∀ {name : Text} {names : List Text} {t' r : Text}, '\\' ∉ name →
      (∀ name ∈ names, '\\' ∉ name) → Markup.command? name t = some t' →
      bracedOneOf? names t' = some (r, after) → ∃ c w, t = c :: (w ++ after) ∧ '\\' ∉ w := by
    intro name names t' r hname hnames ht' hbraced
    obtain ⟨w, rfl, hw⟩ := bracedOneOf?_spec hnames hbraced
    have ht : t = '\\' :: name ++ (w ++ after) := Text.dropPrefix?_eq_some_iff.mp ht'
    exact ⟨'\\', name ++ w, by rw [ht]; simp, by simp [hname, hw]⟩
  simp only [marker, Option.orElse_eq_orElse, Option.orElse_eq_or, Option.or_eq_some_iff,
    Option.map_eq_some_iff, Option.bind_eq_some_iff, Prod.mk.injEq] at h
  rcases h with ⟨⟨name, after'⟩, ⟨t', ht', hname⟩, rfl, rfl⟩ |
    ⟨-, ⟨⟨name, after'⟩, ⟨t', ht', hname⟩, rfl, rfl⟩ | ⟨-, ⟨⟨title, after'⟩, htitle, rfl, rfl⟩ |
      ⟨-, ⟨after', hdollars, rfl, rfl⟩ | ⟨-, ⟨after', hbracket, rfl, rfl⟩ |
        ⟨-, ⟨⟨name, after'⟩, ⟨t', ht', hname⟩, rfl, rfl⟩ | ⟨-, hcallout⟩⟩⟩⟩⟩⟩
  · obtain ⟨c, w, ht, hw⟩ := hcommand (by decide) (List.all_iff_forall_prop.mp (by decide)) ht' hname
    exact .inl ⟨c, w, ht, hw, fun _ h => by cases h⟩
  · obtain ⟨c, w, ht, hw⟩ := hcommand (by decide) (List.all_iff_forall_prop.mp (by decide)) ht' hname
    exact .inl ⟨c, w, ht, hw, fun _ h => by cases h⟩
  · exact .inr (.inl ⟨title, rfl, htitle⟩)
  · exact .inl ⟨'$', ['$'], Text.dropPrefix?_eq_some_iff.mp hdollars, by decide,
      fun _ h => by cases h⟩
  · exact .inl ⟨'\\', ['['], Text.dropPrefix?_eq_some_iff.mp hbracket, by decide,
      fun _ h => by cases h⟩
  · obtain ⟨c, w, ht, hw⟩ := hcommand (by decide) (List.all_iff_forall_prop.mp (by decide)) ht' hname
    exact .inl ⟨c, w, ht, hw, fun _ h => by cases h⟩
  · split at hcallout
    · exact .inr (.inr hcallout)
    · cases hcallout

/-! ### Markers over the border of a command -/

/-- A piece that goes on over a border holds the beginning of what stands behind the border. -/
theorem exists_crossing {v s w after : Text} (h : v ++ s = w ++ after)
    (hcross : after.length < s.length) : ∃ x, x ≠ [] ∧ w = v ++ x ∧ s = x ++ after := by
  rcases List.append_eq_append_iff.mp h with ⟨x, rfl, rfl⟩ | ⟨x, rfl, rfl⟩
  · refine ⟨x, ?_, rfl, rfl⟩
    rintro rfl
    exact absurd hcross (Nat.lt_irrefl _)
  · rw [List.length_append] at hcross
    omega

theorem last_brace_unique {x y s t : Text} (hx : Flat x) (hy : Flat y)
    (h : s ++ '{' :: x = t ++ '{' :: y) : s = t := by
  have hreverse : x.reverse ++ '{' :: s.reverse = y.reverse ++ '{' :: t.reverse := by
    simpa using congrArg List.reverse h
  have hflat : ∀ {z : Text}, Flat z → ∀ c ∈ z.reverse, c ≠ '{' ∧ c ≠ '}' :=
    fun hz c hc => hz c (List.mem_reverse.mp hc)
  exact List.reverse_injective
    (Scan.first_brace_unique (hflat hx) (hflat hy) (.inl rfl) (.inl rfl) hreverse).2.2

/-- A line break and a quote marker in a text with nothing of the kind at its two ends. -/
theorem quoted_infix {front title y z : Text} (hfront : '>' ∉ front)
    (h : front ++ '{' :: (title ++ ['}']) = y ++ '\n' :: '>' :: z) : ['\n', '>'] <:+: title := by
  have hsplit : front ++ '{' :: (title ++ ['}']) = (y ++ ['\n']) ++ '>' :: z := by simpa using h
  rcases List.append_eq_append_iff.mp hsplit with ⟨a, hy, ha⟩ | ⟨a, rfl, ha⟩
  · cases a with
    | nil => cases ha
    | cons c a =>
      obtain ⟨rfl, htail⟩ := List.cons.inj ha
      rcases List.eq_nil_or_concat a with rfl | ⟨a, d, rfl⟩
      · obtain ⟨-, hlast⟩ := List.append_inj' hy rfl
        cases hlast
      · have hbreak : y ++ ['\n'] = (front ++ '{' :: a) ++ [d] := by simpa using hy
        obtain ⟨-, hlast⟩ := List.append_inj' hbreak rfl
        cases hlast
        rcases List.eq_nil_or_concat z with rfl | ⟨z, e, rfl⟩
        · obtain ⟨-, hlast⟩ := List.append_inj' htail rfl
          cases hlast
        · have hinfix : title ++ ['}'] = (a ++ '\n' :: '>' :: z) ++ [e] := by simpa using htail
          obtain ⟨rfl, -⟩ := List.append_inj' hinfix rfl
          exact ⟨a, z, by simp⟩
  · cases a with
    | nil => cases ha
    | cons c a =>
      obtain ⟨rfl, -⟩ := List.cons.inj ha
      exact absurd (List.mem_append_right _ List.mem_cons_self) hfront

namespace IsSectioning

variable {command title : Text}

/-- In a flat command no other one begins that has a brace behind it. -/
theorem eq_nil_of_eq_append (h : IsSectioning command title) (htitle : Flat title) {p u v : Text}
    (hcommand : command = p ++ '\\' :: (u ++ '{' :: v)) : p = [] := by
  obtain ⟨front, rfl, hfront⟩ := h.exists_front
  have hcommand' := hfront '\\' (by decide) (by decide) (by decide)
  cases p with
  | nil => rfl
  | cons c p =>
    obtain ⟨-, htail⟩ := List.cons.inj hcommand
    rcases List.append_eq_append_iff.mp htail with ⟨x, -, hx⟩ | ⟨x, rfl, hx⟩
    · cases x with
      | nil => cases hx
      | cons d x =>
        obtain ⟨-, hx⟩ := List.cons.inj hx
        have hbrace : '{' ∈ title ++ ['}'] := by simp [hx]
        rcases List.mem_append.mp hbrace with hmem | hmem
        · exact absurd rfl (htitle _ hmem).1
        · cases List.mem_singleton.mp hmem
    · cases x with
      | nil => cases hx
      | cons d x =>
        obtain ⟨rfl, -⟩ := List.cons.inj hx
        exact absurd (List.mem_append_right p List.mem_cons_self) hcommand'

/-- A heading does not go on into a sectioning command: it would end with its brace, and so hold its
    backslash in front of a brace. -/
theorem not_crossing_heading (h : IsSectioning command title) (htitle : Flat title)
    {v after title' : Text} (hv : v ≠ []) (hread : heading? (v ++ command) = some (title', after)) :
    command.length ≤ after.length := by
  by_contra hcross
  obtain ⟨front, hcommand, hfront⟩ := h.exists_front
  obtain ⟨u, gap, ht, htitle', hgap, hu⟩ := heading?_spec hread
  obtain ⟨x, hne, hx, hrest⟩ := exists_crossing
    (w := '\\' :: (u ++ gap) ++ '{' :: (title' ++ ['}'])) (ht.trans (by simp))
    (Nat.lt_of_not_le hcross)
  -- the two closing braces are one
  obtain ⟨y, rfl⟩ : ∃ y, x = y ++ ['}'] := by
    rcases List.eq_nil_or_concat x with rfl | ⟨y, d, rfl⟩
    · exact absurd rfl hne
    · have hends : ('\\' :: (u ++ gap) ++ '{' :: title') ++ ['}'] = (v ++ y) ++ [d] := by
        simpa using hx
      obtain ⟨-, hlast⟩ := List.append_inj' hends rfl
      cases hlast
      exact ⟨y, by simp⟩
  have hafter : after = [] := by
    rcases List.eq_nil_or_concat after with hnil | ⟨after', d, rfl⟩
    · exact hnil
    · have hwhole : ('\\' :: (front ++ '{' :: title)) ++ ['}'] = (y ++ '}' :: after') ++ [d] := by
        simpa [hcommand] using hrest
      obtain ⟨hfronts, -⟩ := List.append_inj' hwhole rfl
      have hmem : '}' ∈ '\\' :: (front ++ '{' :: title) := by simp [hfronts]
      have htitle : '}' ∉ title := fun hmem => (htitle _ hmem).2 rfl
      simp [htitle, hfront '}' (by decide) (by decide) (by decide)] at hmem
  subst hafter
  have hy : y = '\\' :: (front ++ '{' :: title) := by
    have hwhole : y ++ ['}'] = ('\\' :: (front ++ '{' :: title)) ++ ['}'] := by
      simpa [hcommand] using hrest.symm
    obtain ⟨hfronts, -⟩ := List.append_inj' hwhole rfl
    exact hfronts
  -- so are the opening ones, and what stands before them
  have hfronts : '\\' :: (u ++ gap) = v ++ '\\' :: front := by
    have hwhole : ('\\' :: (u ++ gap) ++ '{' :: title') ++ ['}'] =
        ((v ++ '\\' :: front) ++ '{' :: title) ++ ['}'] := by
      rw [hy] at hx
      simpa using hx
    obtain ⟨hopened, -⟩ := List.append_inj' hwhole rfl
    exact last_brace_unique htitle' htitle hopened
  obtain ⟨c, v, rfl⟩ := List.exists_cons_of_ne_nil hv
  obtain ⟨-, htail⟩ := List.cons.inj hfronts
  have hgap' : '\\' ∉ gap := fun hmem => absurd (hgap _ hmem) (by decide)
  rcases hu with hu | ⟨w, rfl⟩
  · have hmem : '\\' ∈ u ++ gap := by simp [htail]
    simp [hu, hgap'] at hmem
  · rw [List.append_assoc] at htail
    rcases List.append_eq_append_iff.mp htail with ⟨z, rfl, hz⟩ | ⟨z, rfl, hz⟩
    · have hmem : '\\' ∈ [']'] ++ gap := by simp [hz]
      simp [hgap'] at hmem
    · have hmem : ']' ∈ '\\' :: front := by simp [hz]
      simp [hfront ']' (by decide) (by decide) (by decide)] at hmem

/-- **Only the head of a callout goes on into a flat sectioning command**, and then a line of the
    heading begins with a quote marker. -/
theorem quoted_of_crossing (h : IsSectioning command title) (htitle : Flat title)
    {before v after : Text} {m : Marker} (hv : v ≠ [])
    (hread : marker before (v ++ command) = some (m, after))
    (hcross : after.length < command.length) :
    (∃ name shown number?, m = .callout name shown number?) ∧ ['\n', '>'] <:+: title := by
  have hshape := h.exists_front
  obtain ⟨front, hcommand, hfront⟩ := hshape
  rcases marker_cases hread with ⟨c, w, ht, hw, -⟩ | ⟨title', -, hheading⟩ | hcallout
  · obtain ⟨x, hne, hx, hrest⟩ := exists_crossing (w := c :: w) ht hcross
    obtain ⟨d, x, rfl⟩ := List.exists_cons_of_ne_nil hne
    obtain ⟨e, v, rfl⟩ := List.exists_cons_of_ne_nil hv
    obtain ⟨-, rfl⟩ := List.cons.inj hx
    obtain ⟨rfl, -⟩ := List.cons.inj (hcommand.symm.trans hrest)
    exact absurd (List.mem_append_right v List.mem_cons_self) hw
  · exact absurd (h.not_crossing_heading htitle hv hheading) (Nat.not_le_of_lt hcross)
  · obtain ⟨-, hm, line, below, ht, -, -, hbelow⟩ := callout?_spec hcallout
    obtain ⟨x, hne, hx, hrest⟩ := exists_crossing (w := line ++ '\n' :: '>' :: below)
      (ht.trans (by simp)) hcross
    obtain ⟨d, x, rfl⟩ := List.exists_cons_of_ne_nil hne
    obtain ⟨rfl, -⟩ := List.cons.inj (hcommand.symm.trans hrest)
    refine ⟨hm, ?_⟩
    rcases List.append_eq_append_iff.mp hx with ⟨y, -, hy⟩ | ⟨y, rfl, hy⟩
    · -- the line break stands in front of the command, and its backslash below it
      have hmem : '\\' ∈ '\n' :: '>' :: below := by simp [hy]
      simp [hbelow] at hmem
    · have hquote : '>' ∉ '\\' :: front := by
        simp [hfront '>' (by decide) (by decide) (by decide)]
      refine quoted_infix hquote (y := y) (z := below ++ after) ?_
      rw [List.cons_append, ← hcommand, hrest, hy]
      simp

end IsSectioning

/-! ### Labels behind sectioning commands -/

/-- The markers that are met in the window before an offset. -/
def met (text : Text) (pos : Nat) : List (Hit Marker) :=
  let start := pos - window
  let seen := text.take pos
  Scan.hitsFrom marker start (seen.take start).reverse 0 (seen.drop start)

theorem nearest?_eq (text : Text) (pos : Nat) :
    nearest? text pos = (met text pos).getLast?.map (·.value) := rfl

section

variable {front rest command title : Text}

variable (front rest) in
theorem met_eq (hwindow : command.length ≤ window) : ∃ start before unseen,
    start + unseen.length = front.length ∧
      met (front ++ command ++ rest) (front ++ command).length =
        Scan.hitsFrom marker start before 0 (unseen ++ command) := by
  have hle : (front ++ command).length - window ≤ front.length := by
    rw [List.length_append]
    omega
  refine ⟨(front ++ command).length - window, (front.take ((front ++ command).length - window)).reverse,
    front.drop ((front ++ command).length - window), ?_, ?_⟩
  · rw [List.length_drop]
    omega
  · unfold met
    simp only [List.take_left, List.take_append_of_le_length hle, List.drop_append_of_le_length hle]

/-- **Where a marker is met**: in front of a command, so that it may go on into it, or inside. -/
theorem cases_of_mem_met (hwindow : command.length ≤ window) {h : Hit Marker}
    (hmem : h ∈ met (front ++ command ++ rest) (front ++ command).length) :
    (∃ before v after, v ≠ [] ∧ marker before (v ++ command) = some (h.value, after) ∧
      h.start < front.length ∧ (front.length < h.stop → after.length < command.length)) ∨
    ∃ before p s after, command = p ++ s ∧ marker before s = some (h.value, after) ∧
      h.start = front.length + p.length := by
  obtain ⟨start, before, unseen, hstart, hmet⟩ := met_eq front rest hwindow
  rw [hmet] at hmem
  obtain ⟨passed, s, after, hsplit, hpassed, hread, hstop⟩ := Scan.read_of_mem_hitsFrom hmem
  rcases List.append_eq_append_iff.mp hsplit with ⟨p, rfl, hs⟩ | ⟨v, rfl, rfl⟩
  · refine .inr ⟨_, p, s, after, hs, hread, ?_⟩
    rw [hpassed, ← hstart, List.length_append]
    omega
  · by_cases hv : v = []
    · subst hv
      refine .inr ⟨_, [], command, after, rfl, hread, ?_⟩
      rw [hpassed, ← hstart, List.append_nil, List.length_nil]
      omega
    · have hpos := List.length_pos_of_ne_nil hv
      rw [List.length_append] at hstart hstop
      exact .inl ⟨_, v, after, hv, hread, by omega, by omega⟩

/-- If nothing goes on into a flat sectioning command, its heading is the nearest marker. -/
theorem nearest?_sectioning (hcommand : IsSectioning command title) (htitle : Flat title)
    (hwindow : command.length ≤ window)
    (huncrossed : ∀ h ∈ met (front ++ command ++ rest) (front ++ command).length,
      h.start < front.length → h.stop ≤ front.length) :
    nearest? (front ++ command ++ rest) (front ++ command).length = some (.heading title) := by
  obtain ⟨start, before, unseen, hstart, hmet⟩ := met_eq front rest hwindow
  rw [hmet, ← hstart] at huncrossed
  obtain ⟨hs, hhits⟩ := Scan.exists_hitsFrom_append huncrossed
  have hread := hcommand.marker_eq htitle (unseen.reverse ++ before)
  rw [← List.append_nil command] at hread hhits
  have hne : command ≠ [] := by
    obtain ⟨u, rfl, -⟩ := hcommand.exists_front
    exact List.cons_ne_nil _ _
  rw [Scan.hitsFrom_of_some _ hne hread, List.append_nil] at hhits
  rw [nearest?_eq, hmet, hhits]
  simp [Scan.hitsFrom]

theorem heading?_of_marker {before t after : Text}
    (h : marker before t = some (.heading title, after)) : heading? t = some (title, after) := by
  rcases marker_cases h with ⟨-, -, -, -, hother⟩ | ⟨title', ⟨⟩, hheading⟩ | hcallout
  · exact absurd rfl (hother title)
  · exact hheading
  · obtain ⟨-, ⟨name, shown, number?, ⟨⟩⟩, -⟩ := callout?_spec hcallout

theorem flat_of_nearest? {text : Text} {pos : Nat} (h : nearest? text pos = some (.heading title)) :
    Flat title := by
  rw [nearest?_eq] at h
  obtain ⟨last, hlast, hvalue⟩ := Option.map_eq_some_iff.mp h
  obtain ⟨_, t, after, -, -, hread, -⟩ := Scan.read_of_mem_hitsFrom (List.mem_of_getLast? hlast)
  rw [hvalue] at hread
  obtain ⟨-, -, -, htitle, -⟩ := heading?_spec (heading?_of_marker hread)
  exact htitle

/-- If a heading is the nearest marker behind a flat sectioning command, no marker goes on into the
    command: such a marker would be a callout, and behind it no heading begins any more. -/
theorem uncrossed_of_nearest? {title' : Text} (hcommand : IsSectioning command title)
    (htitle : Flat title) (hwindow : command.length ≤ window)
    (hnearest : nearest? (front ++ command ++ rest) (front ++ command).length =
      some (.heading title')) :
    ∀ h ∈ met (front ++ command ++ rest) (front ++ command).length,
      h.start < front.length → h.stop ≤ front.length := by
  intro h hmem hstart
  by_contra hstop
  rw [nearest?_eq] at hnearest
  obtain ⟨last, hlast, hvalue⟩ := Option.map_eq_some_iff.mp hnearest
  have hcallout : h.value ≠ .heading title' := by
    rcases cases_of_mem_met hwindow hmem with ⟨before, v, after, hv, hread, -, hcross⟩ |
      ⟨before, p, s, after, -, -, hbehind⟩
    · obtain ⟨⟨name, shown, number?, hm⟩, -⟩ :=
        hcommand.quoted_of_crossing htitle hv hread (hcross (Nat.lt_of_not_le hstop))
      rw [hm]
      exact nofun
    · omega
  have hbefore : h.stop ≤ last.start := by
    obtain ⟨hs, hhits⟩ := List.getLast?_eq_some_iff.mp hlast
    rw [hhits] at hmem
    rcases List.mem_append.mp hmem with hmem | hmem
    · have hpairwise : (met (front ++ command ++ rest) (front ++ command).length).Pairwise
          fun a b => a.stop ≤ b.start ∧ a.start < b.start := Scan.pairwise_hitsFrom _ _ _ _ _
      rw [hhits] at hpairwise
      exact ((List.pairwise_append.mp hpairwise).2.2 h hmem last List.mem_cons_self).1
    · rw [List.mem_singleton.mp hmem] at hcallout
      exact absurd hvalue hcallout
  rcases cases_of_mem_met hwindow (List.mem_of_getLast? hlast) with ⟨-, -, -, -, -, hlt, -⟩ |
    ⟨before, p, s, after, hsplit, hread, hbehind⟩
  · omega
  · rw [hvalue] at hread
    obtain ⟨u, gap, rfl, -⟩ := heading?_spec (heading?_of_marker hread)
    have hnil : p = [] := hcommand.eq_nil_of_eq_append htitle
      (u := u ++ gap) (v := title' ++ '}' :: after) (by simpa using hsplit)
    rw [hnil, List.length_nil] at hbehind
    omega

theorem subjectOf_callout (name shown : Text) (number? : Option Text) :
    subjectOf (some (.callout name shown number?)) =
      ⟨name, if isBlankText shown then none else some (strip shown)⟩ := rfl

/-- **Labels behind sectioning commands.**  The label names the section exactly if the heading holds
    no braces and no marker that begins before the command goes on into it, or if the nearest
    marker is a callout that calls itself a section and happens to have that title.  A flat
    heading without a quoted line is always named. -/
theorem classify_sectioning (front rest : Text) (hcommand : IsSectioning command title)
    (hwindow : command.length ≤ window) :
    (classify (front ++ command ++ rest) (front ++ command).length =
        ⟨"section", some (strip title)⟩ ↔
      (Flat title ∧ ∀ h ∈ met (front ++ command ++ rest) (front ++ command).length,
        h.start < front.length → h.stop ≤ front.length) ∨
      ∃ shown number?, nearest? (front ++ command ++ rest) (front ++ command).length =
          some (.callout "section" shown number?) ∧
        isBlankText shown = false ∧ strip shown = strip title) ∧
    (Flat title → ¬ ['\n', '>'] <:+: title →
      classify (front ++ command ++ rest) (front ++ command).length =
        ⟨"section", some (strip title)⟩) := by
  have hnamed : Flat title → (∀ h ∈ met (front ++ command ++ rest) (front ++ command).length,
      h.start < front.length → h.stop ≤ front.length) →
      classify (front ++ command ++ rest) (front ++ command).length =
        ⟨"section", some (strip title)⟩ := by
    intro htitle huncrossed
    rw [classify, nearest?_sectioning hcommand htitle hwindow huncrossed]
    rfl
  refine ⟨⟨fun hsection => ?_, ?_⟩, fun htitle hquoted => hnamed htitle fun h hmem hstart => ?_⟩
  · unfold classify at hsection
    cases hnearest : nearest? (front ++ command ++ rest) (front ++ command).length with
    | none =>
      rw [hnearest] at hsection
      cases congrArg Subject.name? hsection
    | some m =>
      rw [hnearest] at hsection
      have hname := congrArg Subject.name? hsection
      cases m with
      | floatBegin name => cases hname
      | floatEnd => cases hname
      | formula => cases hname
      | callout name shown number? =>
        obtain rfl : name = "section" := congrArg Subject.category hsection
        rw [subjectOf_callout] at hname
        split at hname
        · cases hname
        · rename_i hblank
          exact .inr ⟨shown, number?, rfl, by simpa using hblank, Option.some.inj hname⟩
      | heading title' =>
        have hstrip : strip title' = strip title := Option.some.inj hname
        have htitle : Flat title := by
          refine .of_strip fun c hc => ?_
          rw [← hstrip] at hc
          exact flat_of_nearest? hnearest c (Text.mem_of_mem_strip hc)
        exact .inl ⟨htitle, uncrossed_of_nearest? hcommand htitle hwindow hnearest⟩
  · rintro (⟨htitle, huncrossed⟩ | ⟨shown, number?, hnearest, hblank, hshown⟩)
    · exact hnamed htitle huncrossed
    · rw [classify, hnearest, subjectOf_callout, if_neg (by simp [hblank]), hshown]
  · by_contra hstop
    rcases cases_of_mem_met hwindow hmem with ⟨before, v, after, hv, hread, -, hcross⟩ |
      ⟨before, p, s, after, -, -, hbehind⟩
    · exact hquoted (hcommand.quoted_of_crossing htitle hv hread
        (hcross (Nat.lt_of_not_le hstop))).2
    · omega

end

/-- A heading with a formula and a command in it, below the line of a callout that has a formula
    and a bracket open. -/
theorem classify_sectioning_star :
    let command : Text := "\\subsection*\n" ++ Text.braced " On $x$, \\emph y "
    classify ("> [!lemma] $$x \\[\n" ++ command ++ "\\label{s}")
        ("> [!lemma] $$x \\[\n" ++ command).length = ⟨"section", some "On $x$, \\emph y"⟩ := by
  intro command
  have hcommand : IsSectioning command " On $x$, \\emph y " :=
    ⟨"subsection", by decide, ['*'], ['\n'], .inr rfl, by simp [isBlank], rfl⟩
  have hflat : Flat " On $x$, \\emph y " := List.all_iff_forall_prop.mp (by decide)
  have hnamed := (classify_sectioning "> [!lemma] $$x \\[\n" "\\label{s}" hcommand
    (by decide)).2 hflat (by decide)
  exact hnamed

/-- **A heading with a group in it is passed over**: its label names an equation. -/
theorem named_by_equation :
    let command : Text := "\\section" ++ Text.braced "On \\emph{x}"
    IsSectioning command "On \\emph{x}" ∧ Group.Balanced '{' '}' "On \\emph{x}" ∧
      command.length ≤ window ∧
      classify (command ++ "\\label{s}") command.length = ⟨"equation", none⟩ :=
  ⟨⟨"section", by decide, [], [], .inl rfl, nofun, rfl⟩, by decide, by decide, by decide⟩

end TexMark.Label
