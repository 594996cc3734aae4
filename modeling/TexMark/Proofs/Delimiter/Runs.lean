/-
  TexMark/Proofs/Delimiter/Runs.lean
  ==================================
  **Runs of the normalisation.**  One run pairs or reports each delimiter
  (`accounted_of_normalize`).  What it leaves are the lone delimiters, so all that another run
  can do is to pair those that have become neighbours (`rerun_eq_iff`): a run over its own
  output may well change it.
-/
import TexMark.Proofs.Delimiter.Output
import TexMark.Conversion

namespace TexMark.Delimiter

variable {rules : List DelimiterRule} {text : Text}

theorem Dialect.written (hrules : Dialect rules) : Written rules := by
  intro rule hrule
  obtain ⟨hopener, hcloser⟩ := mem_marks hrule
  exact ⟨(hrules.formed _ hopener).ne_nil, (hrules.formed _ hcloser).ne_nil⟩

theorem dialect (direction : Direction) : Dialect (Phase.delimiterRules direction) := by
  cases direction with
  | forward => exact dialect_forwardRules
  | reverse => exact dialect_reverseRules

theorem result_normalize (hrules : Dialect rules) (text : Text) :
    (normalize rules text).result = .ok (output rules text) := by
  rw [normalize_eq hrules.written]
  rfl

theorem notes_normalize (hrules : Dialect rules) (text : Text) :
    (normalize rules text).notes = reports rules (found rules text) := by
  rw [normalize_eq hrules.written]

/-! ### Every delimiter is accounted for -/

theorem length_reports (rules : List DelimiterRule) (is : List Item) :
    (reports rules is).length = (lone is).length := by
  have hmap : (reports rules is).map (fun d => (d.kind, d.position)) = _ := map_reports is
  simpa using congrArg List.length hmap

theorem reports_eq_nil_iff (rules : List DelimiterRule) (is : List Item) :
    reports rules is = [] ↔ lone is = [] := by
  rw [← List.length_eq_zero_iff, length_reports, List.length_eq_zero_iff]

/-- What is left of a text whose delimiters all make pairs holds escaped delimiters only. -/
theorem isEscaped_output (hrules : Dialect rules) (hlone : lone (found rules text) = [])
    {d : Text} (hd : d ∈ marks rules) {p : Nat} (hp : d <+: (output rules text).drop p) :
    Scan.isEscaped (output rules text) p = true := by
  have hvalues := values_delimiters_output hrules text
  rw [hlone, List.map_nil, List.map_eq_nil_iff] at hvalues
  have hcut := cut_delimiters hrules.formed (output rules text)
  rw [hvalues] at hcut
  exact (cut_nil_iff.mp hcut).isEscaped hd (hrules.formed d hd).ne_nil hp

/-- A run over a text **accounts for** its delimiters: `is` tells which of them make pairs and
    which stand alone. -/
structure Accounted (rules : List DelimiterRule) (text out : Text) (notes : List Diagnostic)
    (is : List Item) : Prop where
  accounts : Accounts rules (delimiters rules text) is
  reported : notes.map (fun d => (d.kind, d.position)) =
    (lone is).map fun h => (.delimiterMismatch, (h.start : Int))
  increasing : (lone is).Pairwise fun h k => h.start < k.start
  count : notes.length + 2 * (edits text is).length = (delimiters rules text).length
  ordered : Edit.Ordered 0 text.length (edits text is)
  written : out = Edit.splice text 0 text.length (edits text is)
  /-- Without reports, what looks like a delimiter in the output is escaped. -/
  rest : notes = [] → ∀ d ∈ marks rules, ∀ p, d <+: out.drop p → Scan.isEscaped out p = true

/-- **A run pairs or reports every delimiter,** and copies what is between the pairs. -/
theorem accounted_of_normalize (direction : Direction) (text : Text) :
    ∃ out, (normalize (Phase.delimiterRules direction) text).result = .ok out ∧
      Accounted (Phase.delimiterRules direction) text out
        (normalize (Phase.delimiterRules direction) text).notes
        (found (Phase.delimiterRules direction) text) := by
  have hrules := dialect direction
  generalize Phase.delimiterRules direction = rules at hrules
  have hdelimiters : (found rules text).flatMap Item.delimiters = delimiters rules text :=
    delimiters_items (delimiters rules text)
  refine ⟨output rules text, result_normalize hrules text, ?_⟩
  rw [notes_normalize hrules]
  constructor
  · exact accounts_items hrules.openers (delimiters rules text)
  · exact map_reports (found rules text)
  · have hsublist := lone_sublist (found rules text)
    rw [hdelimiters] at hsublist
    exact ((pairwise_delimiters text).imp And.right).sublist hsublist
  · rw [length_reports, length_lone_add, hdelimiters]
  · exact ordered_found hrules.written text
  · rfl
  · intro hnone d hd p hp
    exact isEscaped_output hrules ((reports_eq_nil_iff rules _).mp hnone) hd hp

/-! ### Another run -/

/-- Among **settled** delimiters no opener stands directly in front of its own closer. -/
def Settled (rules : List DelimiterRule) (ds : List Text) : Prop :=
  ds.IsChain fun d e => ∀ rule ∈ rules, d = rule.opener → e ≠ rule.closer

theorem edits_items_eq_nil_iff (hrules : Dialect rules) (text : Text) (hs : List (Hit Text)) :
    edits text (items rules hs) = [] ↔ Settled rules (hs.map Hit.value) := by
  unfold Settled
  fun_induction items rules hs with
  | case1 => simp
  | case2 h => simp
  | case3 h k hs hnone ih =>
    rw [edits_lone, ih]
    have hfirst : ∀ rule ∈ rules, h.value = rule.opener → k.value ≠ rule.closer := by
      intro rule hrule hopener
      rw [hopener, hrules.openers rule hrule] at hnone
      cases hnone
    simp only [List.map_cons, List.isChain_cons_cons]
    exact ⟨fun hrest => ⟨hfirst, hrest⟩, And.right⟩
  | case4 h k hs rule hsome hk ih =>
    obtain ⟨hrule, hopener⟩ := ruleOf?_eq_some hsome
    simp only [List.map_cons, List.isChain_cons_cons, edits_pair]
    constructor
    · intro hnil
      cases hnil
    · intro hsettled
      exact absurd hk (hsettled.1 rule hrule hopener)
  | case5 h k hs rule hsome hk ih =>
    rw [edits_lone, ih]
    have hfirst : ∀ rule ∈ rules, h.value = rule.opener → k.value ≠ rule.closer := by
      intro rule' hrule hopener
      rw [hopener, hrules.openers rule' hrule] at hsome
      cases hsome
      exact hk
    simp only [List.map_cons, List.isChain_cons_cons]
    exact ⟨fun hrest => ⟨hfirst, hrest⟩, And.right⟩

/-- A text is left as it is if and only if its delimiters are settled: each pair that is
    rewritten makes them fewer. -/
theorem output_eq_self_iff (hrules : Dialect rules) (text : Text) :
    output rules text = text ↔ Settled rules ((delimiters rules text).map Hit.value) := by
  rw [← edits_items_eq_nil_iff hrules text, ← found]
  constructor
  · intro hsame
    have hlength := congrArg List.length (values_delimiters_output hrules text)
    rw [hsame, List.length_map, List.length_map] at hlength
    have hcount := length_lone_add text (found rules text)
    rw [found, delimiters_items, ← found, hlength] at hcount
    apply List.length_eq_zero_iff.mp
    omega
  · intro hnil
    rw [output, hnil, Edit.splice, Text.slice, List.take_length]
    rfl

/-- **When a run over its own output changes nothing:** exactly when the delimiters that the
    first run leaves alone are settled, now that the pairs between them are gone. -/
theorem rerun_eq_iff (direction : Direction) (text : Text) :
    ∃ out, (normalize (Phase.delimiterRules direction) text).result = .ok out ∧
      ((normalize (Phase.delimiterRules direction) out).result = .ok out ↔
        Settled (Phase.delimiterRules direction)
          ((lone (found (Phase.delimiterRules direction) text)).map Hit.value)) := by
  have hrules := dialect direction
  generalize Phase.delimiterRules direction = rules at hrules
  refine ⟨output rules text, result_normalize hrules text, ?_⟩
  rw [result_normalize hrules, ← values_delimiters_output hrules, ← output_eq_self_iff hrules]
  constructor
  · intro h
    exact Except.ok.inj h
  · intro h
    rw [h]

/-- An opener and a closer with a formula between them are left alone, and then make a pair. -/
theorem rerun_forward_changes :
    ¬ ∀ text out, (normalize forwardRules text).result = .ok out →
      (normalize forwardRules out).result = .ok out := by
  intro h
  have hfirst : output forwardRules "\\[ \\(a\\) \\]" = "\\[ $a$ \\]" := by
    unfold output found delimiters
    rw [tokens_forwardRules]
    decide
  have hsecond : output forwardRules "\\[ $a$ \\]" = "$$$a$$$" := by
    unfold output found delimiters
    rw [tokens_forwardRules]
    decide
  have hrun := fun text => result_normalize dialect_forwardRules text
  have hsame := h "\\[ \\(a\\) \\]" "\\[ $a$ \\]" (by rw [hrun, hfirst])
  rw [hrun, hsecond] at hsame
  revert hsame
  decide

end TexMark.Delimiter
