/-
  TexMark/Proofs/Theorem/Block.lean
  =================================
  **Callouts as blocks.**  A reader of Markdown ends a quotation where a line is not quoted.  The
  content of a callout is quoted line by line; its title and its heading are written as they are.
  So a callout is one block exactly if these two quote their further lines themselves
  (`contiguous_render`), and this holds for all instances of all documents
  (`block_of_instances`).  A title over two lines cuts its callout in two (`block_of_broken`).
-/
import TexMark.Proofs.Delimiter.Display
import TexMark.Proofs.Environment.Closings
import TexMark.Proofs.Environment.Fates
import TexMark.Proofs.Theorem.Headings

namespace TexMark

open Text (lines unlines strip stripEnd lastLine)

namespace Callout

/-! ### Quoted lines -/

/-- All lines of a text are quoted. -/
def Contiguous (t : Text) : Prop := ∀ l ∈ lines t, isQuoted l

/-- All lines of a text but the first are quoted. -/
def QuotedBehind (t : Text) : Prop := ∀ l ∈ (lines t).tail, isQuoted l

instance (t : Text) : Decidable (Contiguous t) := inferInstanceAs (Decidable (∀ l ∈ lines t, _))

instance (t : Text) : Decidable (QuotedBehind t) :=
  inferInstanceAs (Decidable (∀ l ∈ (lines t).tail, _))

section

variable {t u : Text}

theorem quotedBehind_of_not_mem (h : '\n' ∉ t) : QuotedBehind t := by
  rw [QuotedBehind, Text.lines_of_not_mem h]
  nofun

theorem contiguous_cons (t : Text) : Contiguous ('>' :: t) ↔ QuotedBehind t := by
  obtain ⟨f, fs, hlines⟩ := List.exists_cons_of_ne_nil (Text.splitOn_ne_nil '\n' t)
  have hmarked : lines (['>'] ++ t) = (['>'] ++ f) :: fs :=
    Text.lines_append_left (by decide) hlines
  have hquoted : isQuoted ('>' :: f) := rfl
  rw [Contiguous, QuotedBehind, ← List.singleton_append, hmarked, List.forall_mem_cons]
  rw [show lines t = f :: fs from hlines]
  exact and_iff_right hquoted

/-- What stands in front of a text on its first line does not matter. -/
theorem quotedBehind_append_left (hu : '\n' ∉ u) (t : Text) :
    QuotedBehind (u ++ t) ↔ QuotedBehind t := by
  obtain ⟨f, fs, hlines⟩ := List.exists_cons_of_ne_nil (Text.splitOn_ne_nil '\n' t)
  rw [QuotedBehind, QuotedBehind, Text.lines_append_left hu hlines]
  rw [show lines t = f :: fs from hlines]
  rfl

/-- What stands behind a text on its last line does not matter, unless it quotes that line. -/
theorem quotedBehind_append_right (t : Text) (hu : '\n' ∉ u) (hquote : u.head? ≠ some '>') :
    QuotedBehind (t ++ u) ↔ QuotedBehind t := by
  obtain ⟨ls, hlines, hmore⟩ := Text.exists_lines t
  have hlast : isQuoted (lastLine t ++ u) ↔ isQuoted (lastLine t) := by
    cases lastLine t with
    | nil => simp [isQuoted, hquote]
    | cons c l => exact Iff.rfl
  rw [QuotedBehind, QuotedBehind, hmore u u [] (Text.lines_of_not_mem hu), hlines]
  cases ls with
  | nil => exact Iff.rfl
  | cons l ls =>
    rw [List.cons_append, List.cons_append, List.tail_cons, List.tail_cons, List.forall_mem_append,
      List.forall_mem_append, List.forall_mem_singleton, List.forall_mem_singleton, hlast]

theorem contiguous_unlines (l : Text) (ls : List Text) :
    Contiguous (unlines (l :: ls)) ↔ ∀ x ∈ l :: ls, Contiguous x := by
  induction ls generalizing l with
  | nil => simp [unlines, Text.join]
  | cons next ls ih =>
    have hborder : unlines (l :: next :: ls) = l ++ '\n' :: unlines (next :: ls) := by
      simp [Text.unlines_cons]
    have hboth : Contiguous (l ++ '\n' :: unlines (next :: ls)) ↔
        Contiguous l ∧ Contiguous (unlines (next :: ls)) := by
      rw [Contiguous, Text.lines_append_feed, List.forall_mem_append]
      rfl
    rw [hborder, hboth, ih]
    exact List.forall_mem_cons.symm

end

/-! ### The parts of a callout -/

theorem contiguous_headLine (environment : Text) (title? : Option Text) :
    Contiguous (headLine (nameFor environment) title?) ↔
      QuotedBehind (strip (title?.getD [])) := by
  have hname : '\n' ∉ nameFor environment := by
    unfold nameFor
    split
    · rename_i h
      have hall : ∀ name ∈ defaultNames, '\n' ∉ name := by decide
      exact hall _ (List.contains_iff_mem.mp h)
    · decide
  have hmark : '\n' ∉ " [!".toList ++ nameFor environment ++ "]" := by
    simp [hname]
  unfold headLine
  dsimp only
  split
  · rename_i hempty
    rw [List.isEmpty_iff.mp hempty]
    exact iff_of_true ((contiguous_cons _).mpr (quotedBehind_of_not_mem hmark)) (by decide)
  · have hline : "> [!".toList ++ nameFor environment ++ "]" ++ ' ' :: strip (title?.getD []) =
        '>' :: (" [!".toList ++ nameFor environment ++ "]" ++ [' '] ++ strip (title?.getD [])) := by
      simp
    have hfront : '\n' ∉ " [!".toList ++ nameFor environment ++ "]" ++ [' '] := by
      simp [hname]
    rw [hline, contiguous_cons, quotedBehind_append_left hfront]

theorem contiguous_quotedLine {line : Text} (h : '\n' ∉ line) : Contiguous (quotedLine line) := by
  rw [Contiguous, Text.lines_of_not_mem (not_mem_quotedLine h), List.forall_mem_singleton]
  exact isQuoted_quotedLine line

/-- The line of the lead-in. -/
theorem contiguous_leadIn (heading : Text) {number? : Option Text} {first : Text}
    (hnumber : ∀ number ∈ number?, '\n' ∉ number) (hfirst : '\n' ∉ first) :
    Contiguous (quotedLine (stripEnd (leadIn heading number? ++ first))) ↔
      QuotedBehind heading := by
  have hbehind : '\n' ∉ behindHeading number? ∧ (behindHeading number?).head? ≠ some '>' := by
    cases number? with
    | none => exact ⟨nofun, nofun⟩
    | some number =>
      have hnumber := hnumber number rfl
      exact ⟨by simp [behindHeading, hnumber], by simp [behindHeading]⟩
  have hfirst : '\n' ∉ stripEnd (' ' :: first) := by
    obtain ⟨v, hv, -⟩ := Text.exists_stripEnd (' ' :: first)
    intro hmem
    have hall := List.mem_append_left v hmem
    rw [← hv] at hall
    simp [hfirst] at hall
  have hwritten : Text.isBlankText (stripEnd (leadIn heading number? ++ first)) = false := by
    rw [stripEnd_leadIn]
    simp [Text.isBlankText, show Text.isBlank '.' = false by decide]
  have hquoted : quotedLine (stripEnd (leadIn heading number? ++ first)) =
      '>' :: ([' '] ++ (heading ++ (behindHeading number? ++ '.' :: stripEnd (' ' :: first)))) := by
    rw [quotedLine, hwritten, stripEnd_leadIn]
    rfl
  rw [hquoted, contiguous_cons, quotedBehind_append_left (by decide), quotedBehind_append_right]
  · simp [hbehind.1, hfirst]
  · cases hhead : behindHeading number? with
    | nil => simp
    | cons c more =>
      rw [hhead] at hbehind
      exact hbehind.2

/-- **A callout is one block** exactly if its title and its heading quote their further lines
    themselves, whatever its content is. -/
theorem contiguous_render (register : TheoremRegister) (environment content : Text)
    {number? : Option Text} (hnumber : ∀ number ∈ number?, '\n' ∉ number) (title? : Option Text) :
    ∃ block, render register environment content number? title? = block ++ ['\n', '\n'] ∧
      (Contiguous block ↔ QuotedBehind (strip (title?.getD [])) ∧
        QuotedBehind ((register.heading? environment).getD [])) := by
  obtain ⟨first, rest, hlines⟩ : ∃ first rest, lines (strip content) = first :: rest :=
    List.exists_cons_of_ne_nil (Text.splitOn_ne_nil '\n' (strip content))
  have hcontent : ∀ l ∈ stripEnd first :: rest, '\n' ∉ l := feed_not_mem_of_lines hlines
  rw [List.forall_mem_cons] at hcontent
  have hrest : ∀ x ∈ rest.map quotedLine, Contiguous x := by
    rw [List.forall_mem_map]
    exact fun l hl => contiguous_quotedLine (hcontent.2 l hl)
  refine ⟨_, rfl, ?_⟩
  rw [contiguous_unlines, List.forall_mem_cons, contiguous_headLine, hlines]
  refine and_congr_right fun _ => ?_
  dsimp only
  rw [List.map_cons, List.forall_mem_cons, and_iff_left hrest, TheoremRegister.heading?]
  cases register.kinds.get? environment with
  | none =>
    exact iff_of_true (contiguous_quotedLine hcontent.1) (by decide)
  | some kind =>
    have hfirst : first ∈ lines (strip content) := hlines ▸ List.mem_cons_self
    exact contiguous_leadIn kind.heading hnumber (Text.exists_of_mem_lines hfirst).1

end Callout

/-! ### Instances of a document -/

theorem Text.feed_not_mem_ofNat (n : Nat) : '\n' ∉ Text.ofNat n := by
  intro hmem
  have := Nat.isDigit_of_mem_toDigits (by decide) (by decide) hmem
  cases this

namespace TheoremRegister

/-- Numbers of instances stand on one line. -/
theorem not_mem_display (r : TheoremRegister) (k : TheoremKind) : '\n' ∉ r.display k := by
  unfold display
  split
  · have hsection : '\n' ∉ Text.ofInt r.sectionNumber := by
      unfold Text.ofInt
      split <;> simp [Text.feed_not_mem_ofNat]
    simp [hsection, Text.feed_not_mem_ofNat]
  · exact Text.feed_not_mem_ofNat k.counter

theorem not_mem_nextNumber (r : TheoremRegister) (name : Text) :
    ∀ number ∈ (r.nextNumber name).1, '\n' ∉ number := by
  unfold nextNumber
  split
  · nofun
  · split
    · nofun
    · split
      · intro number hnumber
        rw [← Option.some.inj hnumber]
        exact not_mem_display _ _
      · intro number hnumber
        rw [← Option.some.inj hnumber]
        exact not_mem_display _ _

end TheoremRegister

namespace Environment

open Callout (Contiguous QuotedBehind)

variable {settings : Settings} {text : Text}

/-- The environment is written as a callout. -/
def Closing.IsInstance (settings : Settings) (v : Closing) : Prop :=
  settings.converters.get? v.frame.name = none ∧ isTheorem v.counters.register v.frame.name

theorem Forest.number_of_mem_closings {forest : Forest} {c : Counters} {v : Closing}
    (h : v ∈ forest.closings settings text c) : ∀ number ∈ v.frame.number?, '\n' ∉ number := by
  obtain ⟨opening, register, hframe⟩ := frame_of_mem_closings settings text h
  have hdrawn :=
    frameAt_number settings register text opening.name opening.start opening.stop
  rw [hframe]
  dsimp only at hdrawn
  split at hdrawn
  · rw [(Prod.mk.inj hdrawn).1]
    exact register.not_mem_nextNumber _
  · rw [hdrawn.1]
    nofun

theorem Closing.converted_of_instance {v : Closing} (h : v.IsInstance settings) :
    (v.converted settings).1 = (if v.frame.inline then ['\n', '\n'] else []) ++
      Callout.render v.counters.register v.frame.name v.content v.frame.number? v.frame.title? := by
  rw [converted, Frame.converted, convert_instance h.1 h.2]
  rfl

/-- **The callouts of a document.**  Every environment of any document that is converted as an
    instance of a theorem becomes a callout, behind an empty line if it stands inside a line, and in
    front of one.  The callout is one block exactly if the title and the heading of the instance
    quote their further lines themselves. -/
theorem block_of_instances (settings : Settings) (register : TheoremRegister) (equations : Nat)
    (text : Text) :
    ∃ n, Nesting.Reached (events settings register text) n ∧
      (let outcome := n.forest.outcome settings text ⟨register, equations⟩
      (resolve settings register equations text).result = .ok
        ⟨Edit.splice text 0 text.length outcome.1, outcome.2.register, outcome.2.equations⟩) ∧
      let vs := n.forest.closings settings text ⟨register, equations⟩
      vs.map (fun v => (v.frame.name, v.frame.start)) =
        (n.log.flatMap Entry.converted).map (fun p => (p.1.name, p.1.start)) ∧
      ∀ v ∈ vs, v.IsInstance settings → ∃ block,
        (v.converted settings).1 =
          (if v.frame.inline then ['\n', '\n'] else []) ++ (block ++ ['\n', '\n']) ∧
        (Contiguous block ↔ QuotedBehind (strip (v.frame.title?.getD [])) ∧
          QuotedBehind ((v.counters.register.heading? v.frame.name).getD [])) := by
  obtain ⟨n, hn⟩ := Nesting.exists_reached (events settings register text)
  have hresult := (resolveUnder_of_reached settings text register equations mayNest hn).1
  rw [← resolve_eq_run] at hresult
  refine ⟨n, hn, hresult, ?_, ?_⟩
  · rw [Forest.places_closings, hn.environments_forest]
  · intro v hv hinstance
    obtain ⟨block, hblock, hcontiguous⟩ := Callout.contiguous_render v.counters.register
      v.frame.name v.content (Forest.number_of_mem_closings hv) v.frame.title?
    refine ⟨block, ?_, hcontiguous⟩
    rw [Closing.converted_of_instance hinstance, hblock]

/-- A title over two lines. -/
def brokenTitle : Text := "\\begin{theorem}[A\nB]c\\end{theorem}"

/-- A heading over two lines. -/
def brokenHeading : Text :=
  "\\newtheorem{thm}" ++ Text.braced "My\nTheorem" ++ "\n\\begin{thm}a\\end{thm}"

/-- **A callout is cut in two** where its title or its heading goes on on a second line. -/
theorem block_of_broken :
    let title : Text := "> [!theorem] A\nB\n> c"
    let heading : Text := "> [!note]\n> My\nTheorem 1. a"
    (resolve numberingSettings .empty 0 brokenTitle).result =
      .ok ⟨title ++ ['\n', '\n'], .empty, 0⟩ ∧ ¬ Contiguous title ∧
    (resolve numberingSettings .empty 0 brokenHeading).result =
      .ok ⟨'\n' :: heading ++ ['\n', '\n'],
        ⟨[("thm", ⟨"thm", "My\nTheorem", 1, none, false, true⟩)], 0⟩, 0⟩ ∧
      ¬ Contiguous heading := by
  intro title heading
  refine ⟨?_, by decide +kernel, ?_, by decide +kernel⟩
  · rw [resolve_eq_run]
    rfl
  · rw [resolve_eq_run]
    rfl

end Environment

end TexMark
