/-
  TexMark/Proofs/Delimiter/RoundTrip.lean
  =======================================
  **Formulas read back.**  What one direction writes, the other one reads.  Dollars do not tell
  opener from closer, and they are delimiters wherever they stand, so not every formula is read
  back: `Legible` says which are.

    * `formulas_rewritten` — legible formulas that are written in Markdown are read there, kind
      for kind and line for line;
    * `formulas_lost` — formulas that are not: one for each condition, and one whose lines lose
      the blanks between them.
-/
import TexMark.Proofs.Delimiter.Quotation

namespace TexMark.Delimiter

open BlockQuote (Alike isQuoting prefixAt quoteBehind stripLine)
open Scan (escapedBehind)

/-! ### The formulas of a text -/

/-- The lines of a formula without their margins: all of an inline formula, and of a display
    formula those lines that are not empty, without the quote prefix. -/
def contentLines (kind : FormulaKind) (front content : Text) : List Text :=
  match kind with
  | .inline => [Text.strip content]
  | .display => bodyLines front content

def Item.formula? (text : Text) : Item → Option (FormulaKind × List Text)
  | .pair rule h k => some (rule.kind,
      contentLines rule.kind (prefixAt text h.start) (Text.slice text h.stop k.start))
  | .lone _ => none

/-- The formulas between the delimiters of some rules, from left to right. -/
def formulas (rules : List DelimiterRule) (text : Text) : List (FormulaKind × List Text) :=
  (found rules text).filterMap (Item.formula? text)

/-- What is written between the delimiters of the other dialect. -/
def written (text : Text) (rule : DelimiterRule) (h k : Hit Text) : Text :=
  interior rule.kind (prefixAt text h.start) (Text.slice text h.stop k.start)

/-- A formula that is still **legible** when it is written between dollars. -/
structure LegiblePair (text : Text) (rule : DelimiterRule) (h k : Hit Text) : Prop where
  shown : rule.kind = .inline → written text rule h k ≠ []
  -- the closing dollars are not escaped
  ended : Scan.escapes (written text rule h k).reverse = false
  -- on the line of its opener it does not begin with the quote prefix of that line once more
  unquoted : rule.kind = .display → '\n' ∉ Text.strip (Text.slice text h.stop k.start) →
    stripLine (prefixAt text h.start) (written text rule h k) = written text rule h k

/-- All formulas are legible, and none stands right behind an inline one, where its dollar would
    be read together with the closing one. -/
structure Legible (text : Text) (is : List Item) : Prop where
  formula : ∀ rule h k, .pair rule h k ∈ is → LegiblePair text rule h k
  apart : ∀ rule h k rule' h' k', [.pair rule h k, .pair rule' h' k'] <:+: is →
    rule.kind = .inline → k.stop ≠ h'.start

theorem Legible.of_cons {text : Text} {i : Item} {is : List Item} (h : Legible text (i :: is)) :
    Legible text is := by
  constructor
  · intro rule a b hmem
    exact h.formula rule a b (List.mem_cons_of_mem i hmem)
  · intro rule a b rule' a' b' hinfix
    exact h.apart rule a b rule' a' b' (List.infix_cons hinfix)

/-! ### Dollars -/

/-- The delimiters of a formula in Markdown. -/
def dollars : FormulaKind → Text
  | .display => ['$', '$']
  | .inline => ['$']

theorem targets_eq_dollars : ∀ rule ∈ forwardRules,
    rule.targetOpener = dollars rule.kind ∧ rule.targetCloser = dollars rule.kind := by
  decide

theorem exists_ruleOf?_dollars (kind : FormulaKind) :
    ∃ rule, ruleOf? reverseRules (dollars kind) = some rule ∧ rule.kind = kind ∧
      rule.closer = dollars kind := by
  cases kind <;> exact ⟨_, rfl, rfl, rfl⟩

theorem dollars_mem_marks (kind : FormulaKind) : dollars kind ∈ marks reverseRules := by
  cases kind <;> decide

theorem token_of_dollars (kind : FormulaKind) {out : Text}
    (hout : kind = .inline → out.head? ≠ some '$') :
    token (tokens reverseRules) [] (dollars kind ++ out) = some (dollars kind, out) := by
  cases kind with
  | display => exact token_dollars out
  | inline => exact token_dollar (hout rfl)

variable {kind : FormulaKind} {pos : Nat} {text t gap rest out : Text} {is : List Item}
  {ks : List (Hit Text)}

theorem cut_of_no_dollar {escaped : Bool} {s : Text} (hs : '$' ∉ s)
    (ht : Cut reverseRules (escapedBehind escaped s) (pos + s.length) t ks) :
    Cut reverseRules escaped pos (s ++ t) ks := by
  apply Cut.append_of_heads
  · intro c hc d hd hhead
    have hc' : c = '$' := by
      rcases mem_marks_reverseRules hd with rfl | rfl <;> exact (Option.some.inj hhead).symm
    exact hs (hc' ▸ hc)
  · intro d hd
    exact (dialect_reverseRules.formed d hd).ne_nil
  · exact ht

theorem head?_append_ne_dollar {s : Text} (hs : '$' ∉ s)
    (ht : s = [] → t.head? ≠ some '$') : (s ++ t).head? ≠ some '$' := by
  cases s with
  | nil => exact ht rfl
  | cons c s =>
    intro hhead
    cases hhead
    exact hs List.mem_cons_self

/-- The dollars in front of a formula that stands behind `u`. -/
def opening (u : Text) (kind : FormulaKind) : Hit Text :=
  ⟨u.length, u.length + (dollars kind).length, dollars kind⟩

/-- The dollars behind it. -/
def closing (u : Text) (kind : FormulaKind) (body : Text) : Hit Text :=
  ⟨u.length + (dollars kind).length + body.length,
    u.length + (dollars kind).length + body.length + (dollars kind).length, dollars kind⟩

/-- The dollars around a formula are delimiters. -/
theorem cut_formula (before : Text) {body : Text} (hgap : '$' ∉ gap)
    (hopen : escapedBehind false gap = false) (hbody : '$' ∉ body)
    (hended : escapedBehind false body = false) (hshown : kind = .inline → body ≠ [])
    (hnext : kind = .inline → out.head? ≠ some '$')
    (hrest : Cut reverseRules false (closing (before ++ gap) kind body).stop out ks) :
    Cut reverseRules false before.length (gap ++ (dollars kind ++ (body ++ (dollars kind ++ out))))
      (opening (before ++ gap) kind :: closing (before ++ gap) kind body :: ks) := by
  have hmark := dollars_mem_marks kind
  have hopener : kind = .inline → (body ++ (dollars kind ++ out)).head? ≠ some '$' := by
    intro hkind
    exact head?_append_ne_dollar hbody fun hnil => absurd hnil (hshown hkind)
  apply cut_of_no_dollar hgap
  rw [hopen, ← List.length_append]
  refine .mark hmark (token_of_dollars kind hopener) (cut_of_no_dollar hbody ?_)
  rw [hended]
  exact .mark hmark (token_of_dollars kind hnext) hrest

/-- They make a pair, and what is read of it is what stands between them. -/
theorem items_formula {u body full : Text} (ks : List (Hit Text))
    (hfull : full = u ++ (dollars kind ++ (body ++ (dollars kind ++ out)))) :
    lone (items reverseRules (opening u kind :: closing u kind body :: ks)) =
      lone (items reverseRules ks) ∧
    (items reverseRules (opening u kind :: closing u kind body :: ks)).filterMap
        (Item.formula? full) =
      (kind, contentLines kind (quoteBehind u) body) ::
        (items reverseRules ks).filterMap (Item.formula? full) := by
  obtain ⟨rule, hrule, hkind, hcloser⟩ := exists_ruleOf?_dollars kind
  have hitems : items reverseRules (opening u kind :: closing u kind body :: ks) =
      .pair rule (opening u kind) (closing u kind body) :: items reverseRules ks := by
    simp [items, opening, closing, hrule, hcloser]
  have hquote : prefixAt full u.length = quoteBehind u := by
    rw [hfull]
    apply BlockQuote.prefixAt_append
    intro c hc
    have hdollar : c = '$' := by
      cases kind <;> exact (Option.some.inj hc).symm
    rw [hdollar]
    decide
  have hbody : Text.slice full (opening u kind).stop (closing u kind body).start = body := by
    apply Text.slice_of_drop (t := dollars kind ++ out)
    rw [hfull, ← List.append_assoc, opening, ← List.length_append, List.drop_left]
  have hformula : Item.formula? full (.pair rule (opening u kind) (closing u kind body)) =
      some (kind, contentLines kind (quoteBehind u) body) := by
    rw [Item.formula?, hbody, hkind, opening, hquote]
  rw [hitems]
  constructor
  · rfl
  · exact List.filterMap_cons_some hformula

/-! ### Reading back -/

theorem not_mem_interior {front content : Text} (hfront : ∀ c ∈ front, isQuoting c)
    (hcontent : '$' ∉ content) : '$' ∉ interior kind front content := by
  have hstrip : ∀ s, '$' ∉ s → '$' ∉ Text.strip s := by
    intro s hs hmem
    obtain ⟨u, v, heq, -⟩ := Text.exists_strip s
    rw [heq] at hs
    exact hs (by simp [hmem])
  have hlines : ∀ l ∈ bodyLines front content, '$' ∉ l := by
    intro l hl hmem
    obtain ⟨u, v, rfl, -⟩ := exists_of_mem_bodyLines hfront hl
    exact hcontent (by simp [hmem])
  have hquote : '$' ∉ front := BlockQuote.not_mem_of_isQuoting hfront (by decide)
  cases kind with
  | inline => exact hstrip content hcontent
  | display =>
    simp only [interior, displayInterior]
    split
    · intro hmem
      obtain ⟨l, hl, hmem⟩ := List.mem_flatten.mp hmem
      exact hlines l hl hmem
    · intro hmem
      simp only [ownLines, List.cons_append, List.mem_cons, List.mem_append, List.mem_flatMap]
        at hmem
      rcases hmem with hmem | hmem | ⟨l, hl, hmem | hmem | hmem⟩
      · cases hmem
      · exact hquote hmem
      · exact hlines l hl hmem
      · cases hmem
      · exact hquote hmem

theorem not_mem_written {rule : DelimiterRule} {h k : Hit Text}
    (hcontent : '$' ∉ Text.slice text h.stop k.start) : '$' ∉ written text rule h k := by
  apply not_mem_interior _ hcontent
  intro c hc
  exact BlockQuote.isQuoting_of_mem_prefixAt hc

theorem render_forward {rule : DelimiterRule} (hrule : rule ∈ forwardRules) (text : Text)
    (h k : Hit Text) : render rule text h.start (Text.slice text h.stop k.start) =
      dollars rule.kind ++ (written text rule h k ++ dollars rule.kind) := by
  obtain ⟨hopener, hcloser⟩ := targets_eq_dollars rule hrule
  rw [render_eq, hopener, hcloser, written]

namespace LegiblePair

variable {rule : DelimiterRule} {h k : Hit Text}

theorem escapedBehind_written (hlegible : LegiblePair text rule h k) :
    escapedBehind false (written text rule h k) = false := by
  have hbehind := Scan.escapedBehind_escapes [] (written text rule h k)
  rw [List.append_nil, hlegible.ended] at hbehind
  exact hbehind

/-- The lines of a legible formula are those it is written with. -/
theorem contentLines_written (hlegible : LegiblePair text rule h k) :
    contentLines rule.kind (prefixAt text h.start) (written text rule h k) =
      contentLines rule.kind (prefixAt text h.start) (Text.slice text h.stop k.start) := by
  have hunquoted := hlegible.unquoted
  unfold written at hunquoted ⊢
  cases hkind : rule.kind with
  | inline => simp only [contentLines, interior, Text.strip_strip]
  | display =>
    simp only [contentLines, interior]
    have hfeed : '\n' ∉ prefixAt text h.start :=
      BlockQuote.not_mem_of_isQuoting (fun c hc => BlockQuote.isQuoting_of_mem_prefixAt hc)
        (by decide)
    apply bodyLines_displayInterior hfeed
    intro hcontent
    have hsame := hunquoted hkind hcontent
    simp only [hkind, interior, displayInterior, (onOneLine_iff _ _).mpr hcontent, if_true] at hsame
    exact hsame

end LegiblePair

/-- In the output a dollar comes first only where a pair did. -/
theorem Rewritten.head_dollar (h : Rewritten forwardRules text pos t is out)
    (hdollar : '$' ∉ t) (hlone : Delimiter.lone is = []) (hout : out.head? = some '$') :
    ∃ rule a b is', is = .pair rule a b :: is' ∧ a.start = pos := by
  cases h with
  | last => exact absurd (List.mem_of_head? hout) hdollar
  | lone => cases hlone
  | @pair _ _ gap rest inner rest' out rule a b is hrule hfirst =>
    refine ⟨rule, a, b, is, rfl, ?_⟩
    cases gap with
    | nil => exact hfirst.start
    | cons c gap =>
      cases hout
      rw [hfirst.eq] at hdollar
      exact absurd List.mem_cons_self hdollar

/-- **Legible formulas are read back,** from any place on. -/
theorem Rewritten.reread (h : Rewritten forwardRules text pos t is out)
    (ht : text.drop pos = t) (hdollar : '$' ∉ t) (hlone : Delimiter.lone is = [])
    (hlegible : Legible text is) (before : Text) {full : Text}
    (hbefore : Alike (text.take pos) before) (hfull : full = before ++ out) :
    ∃ ks, Cut reverseRules false before.length out ks ∧
      Delimiter.lone (items reverseRules ks) = [] ∧
      (items reverseRules ks).filterMap (Item.formula? full) =
        is.filterMap (Item.formula? text) := by
  induction h generalizing before with
  | @last pos t hbare =>
    refine ⟨[], ?_, by simp [items], by simp [items]⟩
    have hcut : Cut reverseRules false before.length (t ++ []) [] :=
      cut_of_no_dollar hdollar .done
    rwa [List.append_nil] at hcut
  | lone => cases hlone
  | @pair pos t gap rest inner rest' out rule h k is hrule hfirst hsecond hrest ih =>
    have hdrop := hfirst.drop_eq ht
    rw [hfirst.eq, hsecond.eq] at hdollar
    simp only [List.mem_append, not_or] at hdollar
    obtain ⟨hgap, -, hinner, -, hrest'⟩ := hdollar
    have hpair := hlegible.formula rule h k List.mem_cons_self
    have hrender := render_forward hrule text h k
    rw [hsecond.slice_eq hdrop] at hrender
    have hbody : '$' ∉ written text rule h k :=
      not_mem_written (by rwa [hsecond.slice_eq hdrop])
    have hnext : rule.kind = .inline → out.head? ≠ some '$' := by
      intro hkind hout
      obtain ⟨rule', a, b, is', rfl, hstart⟩ := hrest.head_dollar hrest' hlone hout
      exact hlegible.apart rule h k rule' a b ⟨[], is', rfl⟩ hkind hstart.symm
    -- the prefix in front of the formula is the one that stood in front of the pair
    have hquote : prefixAt text h.start = quoteBehind (before ++ gap) := by
      rw [hfirst.prefixAt_eq dialect_forwardRules ht, hfirst.take_eq ht]
      exact (hbefore.append gap).quoteBehind_eq
    have halike := alike_behind_pair dialect_forwardRules hrule hfirst hsecond ht (before ++ gap)
    obtain ⟨ks, hcut, hpairs, hformulas⟩ :=
      ih (hsecond.drop_eq hdrop) hrest' hlone hlegible.of_cons _ halike (by rw [hfull]; simp)
    rw [hrender] at hfull hcut ⊢
    have hstands : full = (before ++ gap) ++ (dollars rule.kind ++ (written text rule h k ++
        (dollars rule.kind ++ out))) := by
      rw [hfull]
      simp
    obtain ⟨hlone', hformulas'⟩ := items_formula ks hstands
    refine ⟨opening (before ++ gap) rule.kind ::
      closing (before ++ gap) rule.kind (written text rule h k) :: ks, ?_, ?_, ?_⟩
    · have hread := cut_formula before hgap hfirst.unescaped hbody
        hpair.escapedBehind_written hpair.shown hnext (hcut.moved (by simp [closing]; omega))
      simpa using hread
    · rw [hlone', hpairs]
    · rw [hformulas', hformulas, ← hquote, hpair.contentLines_written]
      rfl

/-- **Legible formulas that are written in Markdown are read there,** and nothing else is. -/
theorem formulas_rewritten (text : Text) (hdollar : '$' ∉ text)
    (hnotes : (normalize forwardRules text).notes = [])
    (hlegible : Legible text (found forwardRules text)) :
    ∃ out, (normalize forwardRules text).result = .ok out ∧
      (normalize reverseRules out).notes = [] ∧
      formulas reverseRules out = formulas forwardRules text := by
  rw [notes_normalize dialect_forwardRules, reports_eq_nil_iff] at hnotes
  obtain ⟨ks, hcut, hlone, hformulas⟩ := (rewritten_output dialect_forwardRules text).reread rfl
    hdollar hnotes hlegible [] (.inl rfl) rfl
  have hfound : found reverseRules (output forwardRules text) = items reverseRules ks := by
    rw [found, hcut.delimiters_eq dialect_reverseRules.formed]
  refine ⟨output forwardRules text, result_normalize dialect_forwardRules text, ?_, ?_⟩
  · rw [notes_normalize dialect_reverseRules, reports_eq_nil_iff, hfound, hlone]
  · rw [formulas, hfound]
    exact hformulas

/-- A quoted display formula and an inline one. -/
theorem formulas_rewritten_quoted :
    ∃ out, (normalize forwardRules "> \\[\n> a\n> \\] \\( b \\)").result = .ok out ∧
      (normalize reverseRules out).notes = [] ∧
      formulas reverseRules out =
        ([(.display, ["a"]), (.inline, ["b"])] : List (FormulaKind × List Text)) := by
  have hfound : found forwardRules "> \\[\n> a\n> \\] \\( b \\)" =
      [.pair ⟨.display, "\\[", "\\]", "$$", "$$"⟩ ⟨2, 4, "\\["⟩ ⟨11, 13, "\\]"⟩,
        .pair ⟨.inline, "\\(", "\\)", "$", "$"⟩ ⟨14, 16, "\\("⟩ ⟨19, 21, "\\)"⟩] := by
    unfold found delimiters
    rw [tokens_forwardRules]
    rfl
  have hnotes : (normalize forwardRules "> \\[\n> a\n> \\] \\( b \\)").notes = [] := by
    rw [notes_normalize dialect_forwardRules, hfound]
    rfl
  have hlegible : Legible "> \\[\n> a\n> \\] \\( b \\)"
      (found forwardRules "> \\[\n> a\n> \\] \\( b \\)") := by
    rw [hfound]
    constructor
    · intro rule h k hmem
      simp only [List.mem_cons, Item.pair.injEq, List.not_mem_nil, or_false] at hmem
      rcases hmem with ⟨rfl, rfl, rfl⟩ | ⟨rfl, rfl, rfl⟩ <;> constructor <;> decide
    · intro rule h k rule' h' k' hinfix hkind
      have hsame := hinfix.eq_of_length rfl
      simp only [List.cons.injEq, Item.pair.injEq] at hsame
      rw [hsame.1.1] at hkind
      cases hkind
  obtain ⟨out, hout, hread, hformulas⟩ := formulas_rewritten _ (by decide) hnotes hlegible
  refine ⟨out, hout, hread, ?_⟩
  rw [hformulas, formulas, hfound]
  decide

/-- A formula with all of its content but the margins. -/
def Item.trimmed? (text : Text) : Item → Option (FormulaKind × Text)
  | .pair rule h k => some (rule.kind, Text.strip (Text.slice text h.stop k.start))
  | .lone _ => none

/-- The formulas of a text without dollars are not read back as they were, though nothing is
    reported. -/
def Lost (text : Text) : Prop :=
  '$' ∉ text ∧ (normalize forwardRules text).notes = [] ∧
    ∃ out, (normalize forwardRules text).result = .ok out ∧
      ¬ ((normalize reverseRules out).notes = [] ∧
        (found reverseRules out).filterMap (Item.trimmed? out) =
          (found forwardRules text).filterMap (Item.trimmed? text))

theorem lost_iff (text : Text) : Lost text ↔
    '$' ∉ text ∧ reports forwardRules (found forwardRules text) = [] ∧
      ¬ (reports reverseRules (found reverseRules (output forwardRules text)) = [] ∧
        (found reverseRules (output forwardRules text)).filterMap
            (Item.trimmed? (output forwardRules text)) =
          (found forwardRules text).filterMap (Item.trimmed? text)) := by
  simp only [Lost, result_normalize dialect_forwardRules, notes_normalize dialect_forwardRules,
    notes_normalize dialect_reverseRules, Except.ok.injEq, exists_eq_left']

/-- Formulas that are not read back: an empty one, one that ends in a backslash, two side by
    side, one that seems to be quoted once more, and one with blanks between its lines. -/
theorem formulas_lost :
    Lost "\\(\\)" ∧ Lost "\\(a\\ \\)" ∧ Lost "\\(a\\)\\(b\\)" ∧ Lost ">\\[>>0\\]" ∧
      Lost "\\[a\n\n b\\]" := by
  simp only [lost_iff]
  unfold output found delimiters
  rw [tokens_forwardRules, tokens_reverseRules]
  decide

end TexMark.Delimiter
