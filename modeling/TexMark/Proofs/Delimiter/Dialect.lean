/-
  TexMark/Proofs/Delimiter/Dialect.lean
  =====================================
  **Dialects.**  What a run relies on of the rules is little: how their delimiters are formed,
  what is read where one of them stands, and that the delimiters written are no delimiters that
  are read.  `Dialect` lists it, and the rules of both directions have it
  (`dialect_forwardRules`, `dialect_reverseRules`).

    * `Dialect.cut_interior` — no delimiter stands in an interior if none stood in the content;
    * `Dialect.cut_render` — so a formula in place of a pair leaves the delimiters behind it as
      they are.
-/
import TexMark.Proofs.Delimiter.Cut
import TexMark.Proofs.Delimiter.Formula

namespace TexMark.Delimiter

open BlockQuote (Solid isQuoting prefixAt)

/-- What is written in the place of the delimiters of some rules. -/
def targets (rules : List DelimiterRule) : List Text :=
  rules.flatMap fun r => [r.targetOpener, r.targetCloser]

theorem mem_marks {rules : List DelimiterRule} {rule : DelimiterRule} (hrule : rule ∈ rules) :
    rule.opener ∈ marks rules ∧ rule.closer ∈ marks rules := by
  constructor <;> exact List.mem_flatMap.mpr ⟨rule, hrule, by simp⟩

theorem mem_targets {rules : List DelimiterRule} {rule : DelimiterRule} (hrule : rule ∈ rules) :
    rule.targetOpener ∈ targets rules ∧ rule.targetCloser ∈ targets rules := by
  constructor <;> exact List.mem_flatMap.mpr ⟨rule, hrule, by simp⟩

/-- The rules of a **dialect** read one kind of delimiters and write another. -/
structure Dialect (rules : List DelimiterRule) : Prop where
  formed : ∀ d ∈ marks rules, Formed d
  /-- Of dollars one alone is a delimiter too. -/
  dollar : ∀ d ∈ marks rules, d.head? = some '$' → ['$'] ∈ marks rules
  /-- What is read as a delimiter still is when other text follows, unless a dollar comes to
      stand behind it where neither a dollar nor a delimiter was. -/
  reads : ∀ d ∈ marks rules, ∀ rest out, token (tokens rules) [] (d ++ rest) = some (d, rest) →
    (out.head? = some '$' → rest.head? = some '$' ∨ ∃ m ∈ marks rules, m <+: rest) →
    token (tokens rules) [] (d ++ out) = some (d, out)
  openers : ∀ rule ∈ rules, ruleOf? rules rule.opener = some rule
  solid : ∀ d ∈ marks rules ++ targets rules, Solid d
  foreign : ∀ m ∈ targets rules, Foreign rules m

namespace Dialect

variable {rules : List DelimiterRule} {pos : Nat} {front content m t : Text} {hs : List (Hit Text)}

theorem foreign_break (hrules : Dialect rules) (hfront : ∀ c ∈ front, isQuoting c) :
    Foreign rules ('\n' :: front) := by
  refine ⟨List.cons_ne_nil '\n' front, ?_, ?_⟩
  · intro hlast
    have hmem := List.getLast_mem (List.cons_ne_nil '\n' front)
    rw [hlast] at hmem
    rcases List.mem_cons.mp hmem with hfeed | hmem
    · revert hfeed
      decide
    · exact BlockQuote.not_mem_of_isQuoting hfront (by decide) hmem
  · intro c hc d hd hmem
    have hother := hrules.solid d (List.mem_append_left _ hd) c hmem
    rcases List.mem_cons.mp hc with hfeed | hc
    · exact hother.1 hfeed
    · rw [hfront c hc] at hother
      exact Bool.noConfusion hother.2

theorem cut_ownLines (hrules : Dialect rules) (hfront : ∀ c ∈ front, isQuoting c)
    {ls : List Text} (hls : ∀ l ∈ ls, Bare (marks rules) false l)
    (ht : Cut rules false (pos + (ownLines front ls).length) t hs) :
    Cut rules false pos (ownLines front ls ++ t) hs := by
  have hbreak := hrules.foreign_break hfront
  -- each line with the break behind it
  have hlines : ∀ pos, Cut rules false (pos + (ls.flatMap (· ++ '\n' :: front)).length) t hs →
      Cut rules false pos (ls.flatMap (· ++ '\n' :: front) ++ t) hs := by
    clear ht
    induction ls with
    | nil => exact fun _ ht => ht
    | cons l ls ih =>
      intro pos ht
      have hrest := ih (fun x hx => hls x (List.mem_cons_of_mem l hx))
        (pos + l.length + ('\n' :: front).length) (ht.moved (by simp; omega))
      simpa using hbreak.cut hrules.formed (hls l List.mem_cons_self) hrest
  have hrest := hlines (pos + ('\n' :: front).length) (ht.moved (by simp [ownLines]; omega))
  simpa [ownLines] using hbreak.cut hrules.formed (s := []) trivial hrest

/-- No delimiter stands in the interior of a formula if none stood in its content. -/
theorem cut_interior (hrules : Dialect rules) (kind : FormulaKind)
    (hfront : ∀ c ∈ front, isQuoting c) (hbare : Bare (marks rules) false content)
    (hm : Foreign rules m)
    (ht : Cut rules false (pos + (interior kind front content).length + m.length) t hs) :
    Cut rules false pos (interior kind front content ++ (m ++ t)) hs := by
  have hlines := fun l => bare_of_mem_bodyLines (l := l) hfront hbare
  cases kind with
  | inline => exact hm.cut hrules.formed (bare_strip hbare) ht
  | display =>
    simp only [interior, displayInterior] at ht ⊢
    split at ht
    · rename_i h
      rw [if_pos h]
      simp only [onOneLine, Bool.and_eq_true, decide_eq_true_eq] at h
      refine hm.cut hrules.formed ?_ ht
      -- there is one line at most
      rcases hls : bodyLines front content with _ | ⟨l, _ | ⟨l', ls⟩⟩
      · trivial
      · rw [List.flatten_singleton]
        exact hlines l (by rw [hls]; exact List.mem_singleton_self l)
      · rw [hls] at h
        simp at h
    · rename_i h
      rw [if_neg h]
      exact hrules.cut_ownLines hfront hlines (hm.cut hrules.formed (s := []) trivial ht)

/-- **A formula in place of a pair** leaves the delimiters behind it as they are. -/
theorem cut_render (hrules : Dialect rules) {rule : DelimiterRule} (hrule : rule ∈ rules)
    (text : Text) (start : Nat) (hcontent : Bare (marks rules) false content)
    {escaped : Bool} {gap : Text} (hgap : Bare (marks rules) escaped gap)
    (ht : Cut rules false (pos + gap.length + (render rule text start content).length) t hs) :
    Cut rules escaped pos (gap ++ (render rule text start content ++ t)) hs := by
  rw [render_eq] at ht ⊢
  have hinterior : Cut rules false (pos + gap.length + rule.targetOpener.length)
      (interior rule.kind (prefixAt text start) content ++ (rule.targetCloser ++ t)) hs :=
    hrules.cut_interior rule.kind (fun _ => BlockQuote.isQuoting_of_mem_prefixAt) hcontent
      (hrules.foreign _ (mem_targets hrule).2) (ht.moved (by simp; omega))
  simpa using (hrules.foreign _ (mem_targets hrule).1).cut hrules.formed hgap hinterior

end Dialect

/-! ### The two dialects -/

theorem tokens_forwardRules : tokens forwardRules =
    (["\\begin{displaymath}", "\\end{displaymath}", "\\begin{math}", "\\end{math}", "\\\\", "\\$",
      "\\[", "\\]", "\\(", "\\)"] : List Text) := by
  have hmarks : inertTokens ++ marks forwardRules = (["\\\\", "\\$", "\\[", "\\]",
      "\\begin{displaymath}", "\\end{displaymath}", "\\(", "\\)", "\\begin{math}",
      "\\end{math}"] : List Text) := by decide
  rw [tokens, ← marks, hmarks]
  simp [List.mergeSort, List.MergeSort.Internal.splitInTwo]

theorem tokens_reverseRules :
    tokens reverseRules = (["\\\\", "\\$", "$$", "$$", "$", "$"] : List Text) := by
  have hmarks : inertTokens ++ marks reverseRules =
      (["\\\\", "\\$", "$$", "$$", "$", "$"] : List Text) := by decide
  rw [tokens, ← marks, hmarks]
  simp [List.mergeSort, List.MergeSort.Internal.splitInTwo]

/-- A delimiter that begins like no other token is read whatever follows it. -/
theorem token_of_free {rules : List DelimiterRule} {d : Text} (hd : d ∈ marks rules)
    (hfree : ∀ u ∈ inertTokens ++ marks rules, u <+: d ∨ d <+: u → u = d) (out : Text) :
    token (tokens rules) [] (d ++ out) = some (d, out) := by
  have htoken : d ∈ tokens rules := mem_tokens.mpr (.inr hd)
  obtain ⟨u, after, hread⟩ := exists_token [] htoken (List.prefix_append d out)
  obtain ⟨hu, heq⟩ := token_spec hread
  have hbegins : u <+: d ++ out := ⟨after, heq.symm⟩
  have hud : u = d := by
    refine hfree u ?_ (List.prefix_or_prefix_of_prefix hbegins (List.prefix_append d out))
    simpa [mem_tokens] using hu
  subst hud
  rw [hread, List.append_cancel_left heq]

theorem dialect_forwardRules : Dialect forwardRules where
  formed := by decide
  dollar := by decide
  reads := by
    intro d hd rest out _ _
    have hfree : ∀ d ∈ marks forwardRules, ∀ u ∈ inertTokens ++ marks forwardRules,
        u <+: d ∨ d <+: u → u = d := by decide
    exact token_of_free hd (hfree d hd) out
  openers := by decide
  solid := by decide
  foreign := by decide

theorem mem_marks_reverseRules {d : Text} (hd : d ∈ marks reverseRules) :
    d = ['$', '$'] ∨ d = ['$'] := by
  revert d
  decide

theorem token_dollars (out : Text) :
    token (tokens reverseRules) [] ('$' :: '$' :: out) = some (['$', '$'], out) := by
  rw [tokens_reverseRules]
  rfl

/-- One dollar is read where no other one follows. -/
theorem token_dollar {out : Text} (hout : out.head? ≠ some '$') :
    token (tokens reverseRules) [] ('$' :: out) = some (['$'], out) := by
  rw [tokens_reverseRules]
  cases out with
  | nil => rfl
  | cons c out =>
    have hc : c ≠ '$' := by
      rintro rfl
      exact hout rfl
    simp [token, Text.dropPrefix?, hc.symm]

theorem dialect_reverseRules : Dialect reverseRules where
  formed := by decide
  dollar := by decide
  reads := by
    intro d hd rest out hread hhead
    rcases mem_marks_reverseRules hd with rfl | rfl
    · exact token_dollars out
    · have hrest : rest.head? ≠ some '$' := by
        intro hrest
        obtain ⟨rest, rfl⟩ := List.head?_eq_some_iff.mp hrest
        rw [List.cons_append, List.nil_append, token_dollars] at hread
        cases hread
      refine token_dollar fun hout => ?_
      rcases hhead hout with h | ⟨m, hm, hbegins⟩
      · exact hrest h
      · obtain ⟨after, rfl⟩ := hbegins
        rcases mem_marks_reverseRules hm with rfl | rfl <;> exact hrest rfl
  openers := by decide
  solid := by decide
  foreign := by decide

end TexMark.Delimiter
