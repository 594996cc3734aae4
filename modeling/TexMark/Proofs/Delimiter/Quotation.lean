/-
  TexMark/Proofs/Delimiter/Quotation.lean
  =======================================
  **Display formulas in quotations.**  A formula that is written on several lines repeats the
  quote prefix of its opener's line, if nothing but the prefix stands in front of the opener.
  The prefix is read from the text and the formula stands in the output, where other formulas
  have been written in front of it: what both have in common is the line as far as it goes
  (`Rewritten.alike`).

    * `block_in_quotation` — behind its prefix no line of a formula leaves the quotation, and
      behind other text one that has a single line does not;
    * `block_leaves_quotation` — behind other text a formula of several lines may leave it.
-/
import TexMark.Proofs.Delimiter.Runs

namespace TexMark.Delimiter

open BlockQuote (Alike isQuoting linePrefix prefixAt quoteBehind)

variable {rules : List DelimiterRule} {text : Text} {pos : Nat} {t gap rest out : Text}
  {is : List Item}

/-! ### Lines in front of a formula -/

theorem First.prefixAt_eq (hrules : Dialect rules) {h : Hit Text}
    (hfirst : First rules false pos t gap h rest) (ht : text.drop pos = t) :
    prefixAt text h.start = quoteBehind (text.take h.start) := by
  have hdrop := hfirst.drop_start_eq ht
  obtain ⟨c, d, hvalue⟩ := List.exists_cons_of_ne_nil (hrules.formed _ hfirst.mem).ne_nil
  have hhead : ∀ b, (text.drop h.start).head? = some b → isQuoting b = false := by
    intro b hb
    rw [hdrop, hvalue] at hb
    cases hb
    exact (hrules.solid _ (List.mem_append_left _ hfirst.mem) c (by simp [hvalue])).2
  have hlength : (text.take h.start).length = h.start := by
    have := congrArg List.length hdrop
    rw [hvalue] at this
    simp only [List.length_drop, List.length_append, List.length_cons] at this
    rw [List.length_take]
    omega
  have := BlockQuote.prefixAt_append (text.take h.start) hhead
  rwa [List.take_append_drop, hlength] at this

/-- A pair and the formula in its place end in solid writing. -/
theorem alike_behind_pair (hrules : Dialect rules) {rule : DelimiterRule} (hrule : rule ∈ rules)
    {h k : Hit Text} {inner rest' : Text} (hfirst : First rules false pos t gap h rest)
    (hsecond : First rules false h.stop rest inner k rest') (ht : text.drop pos = t)
    (before : Text) :
    Alike (text.take k.stop) (before ++ render rule text h.start inner) := by
  have hmark := hrules.solid k.value (List.mem_append_left _ hsecond.mem)
  have htarget := (mem_targets hrule).2
  have hwritten := hrules.solid _ (List.mem_append_right _ htarget)
  rw [hsecond.take_stop_eq (hfirst.drop_eq ht), render_eq, ← List.append_assoc,
    ← List.append_assoc, ← List.append_assoc]
  exact Alike.of_solid (hrules.formed _ hsecond.mem).ne_nil
    (hrules.foreign _ htarget).ne_nil hmark hwritten _ _

/-- In front of a pair the text and what is made of it have like last lines. -/
theorem Rewritten.alike (hrules : Dialect rules) (h : Rewritten rules text pos t is out)
    (ht : text.drop pos = t) (before : Text) (hbefore : Alike (text.take pos) before)
    {pre post : List Item} {rule : DelimiterRule} {a b : Hit Text}
    (his : is = pre ++ .pair rule a b :: post) :
    Alike (text.take a.start)
      (before ++ Edit.splice text pos a.start (edits text pre)) ∧
    prefixAt text a.start = quoteBehind (text.take a.start) := by
  have hlone : ∀ {pos t gap rest before} {h : Hit Text}, text.drop pos = t →
      First rules false pos t gap h rest → Alike (text.take pos) before →
      Alike (text.take h.stop) (before ++ (gap ++ h.value)) := by
    intro pos t gap rest before h ht hfirst hbefore
    rw [hfirst.take_stop_eq ht]
    exact hbefore.append _
  have hpair : ∀ {pos t gap rest inner rest' before} {rule : DelimiterRule} {h k : Hit Text},
      text.drop pos = t → rule ∈ rules → First rules false pos t gap h rest →
      First rules false h.stop rest inner k rest' → Alike (text.take pos) before →
      Alike (text.take k.stop) (before ++ (gap ++ render rule text h.start inner)) := by
    intro pos t gap rest inner rest' before rule h k ht hrule hfirst hsecond _
    rw [← List.append_assoc]
    exact alike_behind_pair hrules hrule hfirst hsecond ht (before ++ gap)
  obtain ⟨pos', before', gap, rest, -, -, -, halike, heq, hfirst, -⟩ :=
    h.reaches (fun pos before => Alike (text.take pos) before) hlone hpair ht hbefore his
  refine ⟨?_, hfirst.prefixAt_eq hrules rfl⟩
  rw [heq, hfirst.take_eq rfl]
  exact halike.append gap

/-! ### Formulas in quotations -/

theorem not_mem_targets (hrules : Dialect rules) {rule : DelimiterRule} (hrule : rule ∈ rules) :
    '\n' ∉ rule.targetOpener ∧ '\n' ∉ rule.targetCloser := by
  obtain ⟨hopener, hcloser⟩ := mem_targets hrule
  constructor
  · intro hmem
    exact (hrules.solid _ (List.mem_append_right _ hopener) _ hmem).1 rfl
  · intro hmem
    exact (hrules.solid _ (List.mem_append_right _ hcloser) _ hmem).1 rfl

/-- A formula with one line of content is written on one line. -/
theorem not_mem_render (hrules : Dialect rules) {rule : DelimiterRule} (hrule : rule ∈ rules)
    (start : Nat) {content : Text} (hcontent : '\n' ∉ Text.strip content) :
    '\n' ∉ render rule text start content := by
  obtain ⟨hopener, hcloser⟩ := not_mem_targets hrules hrule
  have hinterior : '\n' ∉ interior rule.kind (prefixAt text start) content := by
    cases rule.kind with
    | inline => exact hcontent
    | display => exact not_mem_displayInterior hcontent
  rw [render_eq]
  simp [hopener, hcloser, hinterior]

/-- **A display formula stays in its quotation.**  Behind nothing but a quote prefix, on the
    line of the output too, each of its lines begins with the prefix.  Behind other text it stays
    on its line, if its content is a single line. -/
theorem block_in_quotation (direction : Direction) (text : Text) {pre post : List Item}
    {rule : DelimiterRule} {a b : Hit Text} (hkind : rule.kind = .display)
    (hfound : found (Phase.delimiterRules direction) text = pre ++ .pair rule a b :: post) :
    ∃ before block below,
      (normalize (Phase.delimiterRules direction) text).result =
        .ok (before ++ (block ++ below)) ∧
      before = Edit.splice text 0 a.start (edits text pre) ∧
      block = render rule text a.start (Text.slice text a.stop b.start) ∧
      below = Edit.splice text b.stop text.length (edits text post) ∧
      (∀ above front, text.take a.start = above ++ front → Scan.atLineStart above.reverse →
        linePrefix front = front →
        ∃ above', before = above' ++ front ∧ Scan.atLineStart above'.reverse ∧
          ∀ line ∈ Text.lines (front ++ block), front <+: line) ∧
      ('\n' ∉ Text.strip (Text.slice text a.stop b.start) → '\n' ∉ block) := by
  have hrules := dialect direction
  generalize Phase.delimiterRules direction = rules at hrules hfound
  have hrule : rule ∈ rules := by
    refine (paired_items (delimiters rules text) (h := a) (k := b) ?_).1
    rw [← found, hfound]
    exact List.mem_append_right _ List.mem_cons_self
  have hrewritten := rewritten_output hrules text
  obtain ⟨halike, hprefixAt⟩ := hrewritten.alike hrules rfl [] (.inl rfl) hfound
  refine ⟨_, _, _, ?_, rfl, rfl, rfl, ?_, ?_⟩
  · rw [result_normalize hrules, output, hfound, edits_append, edits_pair,
      Edit.splice_append_cons]
  · intro above front htake habove hfront
    have hquoting : ∀ c ∈ front, isQuoting c := by
      intro c hc
      rw [← hfront] at hc
      exact BlockQuote.isQuoting_of_mem_linePrefix hc
    have hfeed : '\n' ∉ front := BlockQuote.not_mem_of_isQuoting hquoting (by decide)
    have hlast : Text.lastLine (text.take a.start) = front := by
      rw [htake]
      exact Text.lastLine_eq habove hfeed
    -- the line in front of the opener holds the prefix in the text, and so it does in the output
    have hlast' : Text.lastLine (Edit.splice text 0 a.start (edits text pre)) = front := by
      rw [← hlast] at hquoting
      exact (halike.lastLine_eq hquoting).trans hlast
    obtain ⟨above', hbefore, habove'⟩ :=
      Text.exists_lastLine (Edit.splice text 0 a.start (edits text pre))
    rw [hlast'] at hbefore
    refine ⟨above', hbefore, habove', ?_⟩
    have hquote : prefixAt text a.start = front := by
      rw [hprefixAt, quoteBehind, hlast, if_pos hfront]
    obtain ⟨hopener, hcloser⟩ := not_mem_targets hrules hrule
    intro line hline
    rw [render_eq, hkind, hquote] at hline
    exact prefix_of_mem_lines hfeed hopener hcloser hline
  · exact not_mem_render hrules hrule a.start

/-- A quoted formula of three lines. -/
theorem block_in_quotation_quoted :
    found forwardRules "> \\[\n> x\n> \\]" =
      [.pair ⟨.display, "\\[", "\\]", "$$", "$$"⟩ ⟨2, 4, "\\["⟩ ⟨11, 13, "\\]"⟩] ∧
    ∃ block, (normalize forwardRules "> \\[\n> x\n> \\]").result = .ok ("> " ++ block) ∧
      ∀ line ∈ Text.lines ("> " ++ block), ("> " : Text) <+: line := by
  have hfound : found forwardRules "> \\[\n> x\n> \\]" =
      [.pair ⟨.display, "\\[", "\\]", "$$", "$$"⟩ ⟨2, 4, "\\["⟩ ⟨11, 13, "\\]"⟩] := by
    unfold found delimiters
    rw [tokens_forwardRules]
    rfl
  obtain ⟨before, block, below, hresult, hbefore, -, hbelow, hlines, -⟩ :=
    block_in_quotation .forward "> \\[\n> x\n> \\]" rfl (hfound.trans (List.nil_append _).symm)
  obtain ⟨-, -, -, hprefixed⟩ := hlines [] "> " rfl rfl (by decide)
  refine ⟨hfound, block, ?_, hprefixed⟩
  have hnothing : below = [] := hbelow
  have hquote : before = "> ".toList := hbefore
  rw [hnothing, hquote, List.append_nil] at hresult
  exact hresult

/-- Text in front of the opener keeps the prefix away from the lines of the formula. -/
theorem block_leaves_quotation :
    (∀ line ∈ Text.lines "> t \\[\n> x\n> \\]", ("> " : Text) <+: line) ∧
    found forwardRules "> t \\[\n> x\n> \\]" =
      [.pair ⟨.display, "\\[", "\\]", "$$", "$$"⟩ ⟨4, 6, "\\["⟩ ⟨13, 15, "\\]"⟩] ∧
    (normalize forwardRules "> t \\[\n> x\n> \\]").result = .ok "> t $$\n> x\n>\n$$" ∧
    ¬ ∀ line ∈ Text.lines "> t $$\n> x\n>\n$$", ("> " : Text) <+: line := by
  refine ⟨by decide, ?_, ?_, by decide⟩
  · unfold found delimiters
    rw [tokens_forwardRules]
    rfl
  · have houtput : output forwardRules "> t \\[\n> x\n> \\]" = "> t $$\n> x\n>\n$$" := by
      unfold output found delimiters
      rw [tokens_forwardRules]
      decide
    rw [result_normalize dialect_forwardRules, houtput]

end TexMark.Delimiter
