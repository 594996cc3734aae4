/-
  TexMark/Proofs/Citation/Formatting.lean
  =======================================
  **What citations show.**  Each key of a citation fills the template of its command once, and the
  notes stand before and behind the keys.

    * `formatKeys_eq` — the keys that are not blank are shown in their order, and every blank key
      and every key with a character that keys do not have is reported once;
    * `formatHit_of_isCitation`, `formatHit_of_forall_not` — a citation is replaced as a whole; a
      command that is none, or that stands inside of the last one, is passed over;
    * `format_of_areCitations` — the run replaces the leftmost citations that do not overlap, and
      copies everything else;
    * `citations_of_format` — the same with all that is shown and reported written out.
-/
import TexMark.Proofs.Citation.Commands
import TexMark.Proofs.Passes
import TexMark.Proofs.Templates

namespace TexMark.Citation

open Noted
open Text (strip)

/-! ### Keys -/

/-- The keys of a citation, between its commas and trimmed. -/
def keysOf (keys : Text) : List Text := (Text.splitOn ',' keys).map strip

/-- What is reported of a key, if anything. -/
def complaint? (name key : Text) : Option Text :=
  if key = [] then some ("Empty key in \\" ++ name)
  else if key.all isKeyChar then none
  else some ("Malformed citation key " ++ Text.quoted key)

/-- One instance of a template, with the key as it is. -/
def shownKey (template key : Text) : Text :=
  (Template.parts template).flatMap
    (Template.Part.filled fun name : Text => if name = ("key" : Text) then some key else none)

theorem fill_key (template key : Text) :
    Template.fill template [("key", key)] = shownKey template key := by
  have hvalue : ∀ k : Text, (fun name : Text =>
      (([(k, key)] : List (Text × Text)).find? fun e => e.1 == name).map (·.2)) =
        fun name => if name = k then some key else none := by
    intro k
    funext name
    by_cases hname : name = k
    · simp [hname]
    · simp [beq_false_of_ne (Ne.symm hname), hname]
  rw [Template.fill_eq_parts, hvalue]
  rfl

theorem formatKey_eq (template name : Text) (position : Nat) (key : Text) :
    formatKey template name position key =
      ⟨((complaint? name key).map fun message => ⟨.citationKeyError, message, position⟩).toList,
        .ok (if key = [] then none else some (shownKey template key))⟩ := by
  unfold formatKey complaint?
  by_cases hempty : key = []
  · subst hempty
    rfl
  · rw [fill_key]
    by_cases hkey : key.all isKeyChar
    · simp [hempty, hkey]
      rfl
    · simp [hempty, hkey]
      rfl

/-- The keys of a citation as they are shown. -/
def shownKeys (template keys : Text) : Text :=
  Text.join ", " (((keysOf keys).filter fun key => key ≠ []).map (shownKey template))

/-- What is reported of the keys of a citation. -/
def keyReports (name keys : Text) (position : Nat) : List Diagnostic :=
  (keysOf keys).filterMap fun key =>
    (complaint? name key).map fun message => ⟨.citationKeyError, message, position⟩

theorem formatKeys_eq (templates : Table Text) (name keys : Text) (position : Nat) :
    formatKeys templates name keys position = ⟨keyReports name keys position,
      .ok (shownKeys (templateFor templates name) keys)⟩ := by
  have hrun : ∀ ks : List Text, ks.mapM (formatKey (templateFor templates name) name position) =
      ⟨ks.filterMap fun key =>
          (complaint? name key).map fun message => ⟨.citationKeyError, message, position⟩,
        .ok (ks.map fun key => if key = [] then none
          else some (shownKey (templateFor templates name) key))⟩ := by
    intro ks
    induction ks with
    | nil => rfl
    | cons key ks ih =>
      rw [List.mapM_cons, formatKey_eq, bind_of_ok rfl, ih, bind_of_ok rfl]
      cases hcomplaint : complaint? name key <;> simp [hcomplaint]
  have hshown : ∀ ks : List Text,
      (ks.map fun key => if key = [] then none
        else some (shownKey (templateFor templates name) key)).filterMap id =
      (ks.filter fun key => key ≠ []).map (shownKey (templateFor templates name)) := by
    intro ks
    induction ks with
    | nil => rfl
    | cons key ks ih =>
      by_cases hempty : key = []
      · rw [List.map_cons, if_pos hempty, List.filterMap_cons_none rfl, ih,
          List.filter_cons_of_neg (by simp [hempty])]
      · rw [List.map_cons, if_neg hempty, List.filterMap_cons_some (id_eq _), ih,
          List.filter_cons_of_pos (by simp [hempty]), List.map_cons]
  unfold formatKeys
  rw [show (Text.splitOn ',' keys).map strip = keysOf keys from rfl, hrun, bind_pure_of_eq rfl,
    hshown]
  rfl

example : formatKeys [("citet", "$key/$$")] "citet" " a,, $key " 7 =
    ⟨[⟨.citationKeyError, "Empty key in \\citet", 7⟩,
        ⟨.citationKeyError, "Malformed citation key '$key'", 7⟩], .ok "a/$, $key/$"⟩ := rfl

/-! ### Citations -/

namespace Written

/-- The notes of a citation before its keys and behind them, trimmed; empty where there is none. -/
def placedNotes (c : Written) : Text × Text :=
  match c.notes with
  | [] => ([], [])
  | [post] => ([], strip post)
  | pre :: post :: _ => (strip pre, strip post)

/-- What stands in the place of a citation. -/
def shown (templates : Table Text) (c : Written) : Text :=
  let (pre, post) := c.placedNotes
  (if pre = [] then [] else pre ++ [' ']) ++ shownKeys (templateFor templates c.name) c.keys ++
    if post = [] then [] else ' ' :: '(' :: (post ++ [')'])

def edit (templates : Table Text) (c : Written) : Edit := ⟨c.start, c.stop, c.shown templates⟩

def reports (c : Written) : List Diagnostic := keyReports c.name c.keys c.start

theorem placed_map_strip (c : Written) : placed (c.notes.map strip) = c.placedNotes := by
  unfold placedNotes
  rcases c.notes with _ | ⟨pre, _ | ⟨post, more⟩⟩ <;> rfl

theorem withNotes_eq (templates : Table Text) (c : Written) :
    withNotes c.placedNotes.1 c.placedNotes.2
      (shownKeys (templateFor templates c.name) c.keys) = c.shown templates := by
  simp [withNotes, shown, List.isEmpty_iff]

end Written

section

variable {templates : Table Text} {text : Text} {s : Progress} {h : Hit Text} {c : Written}

theorem exists_hit_of_isCitation (hc : IsCitation text c) :
    ∃ h ∈ Scan.hits command text, h.start = c.start := by
  obtain ⟨tail, hcommand, -⟩ := hc.reads.command_notes (text.take c.start).reverse
  obtain ⟨hsuffix, hshorter⟩ := advances_command _ _ _ _ hcommand
  have htail := List.suffix_iff_eq_drop.mp (hsuffix.trans (List.drop_suffix c.start text))
  rw [List.length_drop] at hshorter
  refine ⟨⟨c.start, text.length - tail.length, c.name⟩, ?_, rfl⟩
  refine Scan.mem_hits_of_read oneCommand_command (htail ▸ hcommand) ?_ (Nat.sub_le _ _)
  dsimp only
  omega

/-- **A citation is replaced as a whole.** -/
theorem formatHit_of_isCitation (hmem : h ∈ Scan.hits command text) (hc : IsCitation text c)
    (hstart : h.start = c.start) (hcursor : s.cursor ≤ h.start) :
    formatHit templates text s h =
      ⟨c.reports, .ok ⟨c.stop, s.edits ++ [c.edit templates]⟩⟩ := by
  obtain ⟨hread, -, -⟩ := Scan.hit_spec advances_command hmem
  obtain ⟨tail, hcommand, behind, hnotes, -, hkeys⟩ :=
    hc.reads.command_notes (text.take h.start).reverse
  rw [← hstart, hread] at hcommand
  obtain ⟨hname, rfl⟩ := Prod.mk.inj (Option.some.inj hcommand)
  have hfree : ¬ (h.start < s.cursor ∨ Scan.isEscaped text h.start) := by
    simp [hstart, hc.unescaped]
    omega
  have hstop : text.length - (text.drop c.stop).length = c.stop := by
    have := hc.ends
    rw [List.length_drop]
    omega
  unfold formatHit
  rw [if_neg hfree, hnotes]
  dsimp only
  rw [Group.braces?_skipSpaces_eq_some_iff.mpr hkeys]
  dsimp only
  rw [formatKeys_eq, bind_pure_of_eq rfl, hstop, Written.placed_map_strip, hname,
    Written.withNotes_eq, hstart]
  rfl

/-- A command that is no citation is passed over. -/
theorem formatHit_of_forall_not (hmem : h ∈ Scan.hits command text)
    (hnone : ∀ c, IsCitation text c → c.start = h.start → h.start < s.cursor) :
    formatHit templates text s h = pure s := by
  obtain ⟨hread, hlt, hstop⟩ := Scan.hit_spec advances_command hmem
  unfold formatHit
  split
  · rfl
  · rename_i hfree
    rw [not_or, Bool.not_eq_true] at hfree
    dsimp only
    split
    · rfl
    · rename_i keys after hkeys
      obtain ⟨given, -, hreads⟩ := exists_reads hread hkeys
      have hafter := List.suffix_iff_eq_drop.mp
        (hreads.behind.1.trans (List.drop_suffix h.start text))
      have hcitation : IsCitation text ⟨h.start, text.length - after.length, h.value, given, keys⟩ :=
        ⟨hfree.2, hafter ▸ hreads, Nat.sub_le _ _⟩
      exact absurd (hnone _ hcitation rfl) hfree.1

end

/-! ### The run -/

/-- What is **reached** of a run when some hits are taken: the citations among them that are
    replaced. -/
structure Reached (templates : Table Text) (text : Text) (citations : List Written)
    (taken : List (Hit Text)) (notes : List Diagnostic) (s : Progress) : Prop where
  each : ∀ c ∈ citations, IsCitation text c
  apart : citations.Pairwise fun a b => a.stop ≤ b.start
  begun : ∀ c ∈ citations, ∃ h ∈ taken, h.start = c.start
  covers : ∀ h ∈ taken, ∀ c, IsCitation text c → c.start = h.start →
    ∃ c' ∈ citations, c'.start ≤ c.start ∧ c.start < c'.stop
  before : ∀ c ∈ citations, c.stop ≤ s.cursor
  last : s.cursor = 0 ∨ ∃ c ∈ citations, c.stop = s.cursor
  edits : s.edits = citations.map (Written.edit templates)
  notes : notes = citations.flatMap Written.reports

namespace Reached

variable {templates : Table Text} {text : Text} {citations : List Written}
  {taken : List (Hit Text)} {notes : List Diagnostic} {s : Progress} {h : Hit Text}

theorem start : Reached templates text [] [] [] ⟨0, []⟩ where
  each := nofun
  apart := .nil
  begun := nofun
  covers := nofun
  before := nofun
  last := .inl rfl
  edits := rfl
  notes := rfl

theorem replace (hreached : Reached templates text citations taken notes s) {c : Written}
    (hc : IsCitation text c) (hstart : h.start = c.start) (hcursor : s.cursor ≤ h.start) :
    Reached templates text (citations ++ [c]) (taken ++ [h]) (notes ++ c.reports)
      ⟨c.stop, s.edits ++ [c.edit templates]⟩ where
  each := List.forall_mem_append.mpr ⟨hreached.each, List.forall_mem_singleton.mpr hc⟩
  apart := by
    refine List.pairwise_append.mpr ⟨hreached.apart, List.pairwise_singleton _ _, ?_⟩
    intro a ha b hb
    rw [List.mem_singleton.mp hb, ← hstart]
    exact (hreached.before a ha).trans hcursor
  begun := by
    refine List.forall_mem_append.mpr ⟨fun a ha => ?_, List.forall_mem_singleton.mpr ?_⟩
    · obtain ⟨h', hmem, hstart'⟩ := hreached.begun a ha
      exact ⟨h', List.mem_append_left _ hmem, hstart'⟩
    · exact ⟨h, List.mem_append_right _ List.mem_cons_self, hstart⟩
  covers := by
    refine List.forall_mem_append.mpr ⟨fun h' hmem c' hc' hstart' => ?_,
      List.forall_mem_singleton.mpr fun c' _ hstart' => ?_⟩
    · obtain ⟨a, ha, hbounds⟩ := hreached.covers h' hmem c' hc' hstart'
      exact ⟨a, List.mem_append_left _ ha, hbounds⟩
    · have := hc.start_lt
      exact ⟨c, List.mem_append_right _ List.mem_cons_self, by omega, by omega⟩
  before := by
    have := hc.start_lt
    refine List.forall_mem_append.mpr ⟨fun a ha => ?_, List.forall_mem_singleton.mpr le_rfl⟩
    have := hreached.before a ha
    dsimp only
    omega
  last := .inr ⟨c, List.mem_append_right _ List.mem_cons_self, rfl⟩
  edits := by rw [hreached.edits, List.map_append, List.map_singleton]
  notes := by rw [hreached.notes, List.flatMap_append, List.flatMap_singleton]

theorem pass (hreached : Reached templates text citations taken notes s)
    (hbehind : ∀ h' ∈ taken, h'.start < h.start)
    (hnone : ∀ c, IsCitation text c → c.start = h.start → h.start < s.cursor) :
    Reached templates text citations (taken ++ [h]) notes s where
  each := hreached.each
  apart := hreached.apart
  begun := by
    intro a ha
    obtain ⟨h', hmem, hstart⟩ := hreached.begun a ha
    exact ⟨h', List.mem_append_left _ hmem, hstart⟩
  covers := by
    refine List.forall_mem_append.mpr ⟨hreached.covers,
      List.forall_mem_singleton.mpr fun c hc hstart => ?_⟩
    have hinside := hnone c hc hstart
    rcases hreached.last with hzero | ⟨a, ha, hstop⟩
    · omega
    · obtain ⟨h', hmem, hstart'⟩ := hreached.begun a ha
      have := hbehind h' hmem
      exact ⟨a, ha, by omega, by omega⟩
  before := hreached.before
  last := hreached.last
  edits := hreached.edits
  notes := hreached.notes

end Reached

/-- **The run takes the leftmost citations.** -/
theorem exists_reached (templates : Table Text) (text : Text) :
    ∃ s citations, AreCitations text citations ∧
      (Scan.hits command text).foldlM (formatHit templates text) ⟨0, []⟩ =
        ⟨citations.flatMap Written.reports, .ok s⟩ ∧
      s.edits = citations.map (Written.edit templates) := by
  obtain ⟨s, hs, citations, hreached⟩ := exists_foldlM (f := formatHit templates text)
    (fun taken notes s => ∃ citations, Reached templates text citations taken notes s)
    (Scan.hits command text) ⟨[], .start⟩ fun taken notes s h hprefix ⟨citations, hreached⟩ => by
      have hmem := hprefix.subset (List.mem_append_right _ (List.mem_singleton_self h))
      have hbehind : ∀ h' ∈ taken, h'.start < h.start := by
        intro h' hmem'
        have htaken := (Scan.pairwise_hits command text).sublist hprefix.sublist
        exact ((List.pairwise_append.mp htaken).2.2 h' hmem' h (List.mem_singleton_self h)).2
      by_cases hc : ∃ c, IsCitation text c ∧ c.start = h.start ∧ s.cursor ≤ h.start
      · obtain ⟨c, hc, hstart, hcursor⟩ := hc
        rw [formatHit_of_isCitation hmem hc hstart.symm hcursor]
        exact ⟨_, rfl, _, hreached.replace hc hstart.symm hcursor⟩
      · have hnone : ∀ c, IsCitation text c → c.start = h.start → h.start < s.cursor := by
          intro c hcitation hstart
          by_contra hcursor
          exact hc ⟨c, hcitation, hstart, Nat.le_of_not_lt hcursor⟩
        rw [formatHit_of_forall_not hmem hnone]
        exact ⟨s, rfl, citations, by simpa using hreached.pass hbehind hnone⟩
  refine ⟨s, citations, ⟨hreached.each, hreached.apart, fun c hc => ?_⟩,
    Noted.ext hreached.notes hs, hreached.edits⟩
  obtain ⟨h, hmem, hstart⟩ := exists_hit_of_isCitation hc
  exact hreached.covers h hmem c hc hstart.symm

theorem exists_areCitations (text : Text) : ∃ citations, AreCitations text citations := by
  obtain ⟨-, citations, hcitations, -⟩ := exists_reached [] text
  exact ⟨citations, hcitations⟩

theorem AreCitations.ordered {text : Text} {citations : List Written}
    (h : AreCitations text citations) (templates : Table Text) :
    Edit.Ordered 0 text.length (citations.map (Written.edit templates)) := by
  refine ⟨?_, List.pairwise_map.mpr h.apart⟩
  intro e he
  obtain ⟨c, hc, rfl⟩ := List.mem_map.mp he
  exact ⟨Nat.zero_le _, (h.each c hc).start_lt, (h.each c hc).ends⟩

/-- **The citations of a text are replaced**, and everything else is copied. -/
theorem format_of_areCitations {text : Text} {citations : List Written}
    (h : AreCitations text citations) (templates : Table Text) :
    format templates text = ⟨citations.flatMap Written.reports,
      .ok (Edit.splice text 0 text.length (citations.map (Written.edit templates)))⟩ := by
  obtain ⟨s, citations', hcitations, hrun, hedits⟩ := exists_reached templates text
  have hordered : Edit.Ordered 0 text.length s.edits := hedits ▸ hcitations.ordered templates
  rw [h.unique hcitations, ← hedits, format]
  exact bind_edited_of_eq hrun Progress.edits hordered

/-- **Citation formatting.**  A text determines its citations: the leftmost ones that do not
    overlap.  Each of them is replaced by what it shows, with the keys that are not blank in their
    order, one instance of the template for each, and the notes around them; everything else is
    copied.  Each blank key and each key with a character that keys do not have is reported. -/
theorem citations_of_format (templates : Table Text) (text : Text) :
    ∃ citations, AreCitations text citations ∧
      (∀ others, AreCitations text others → others = citations) ∧
      format templates text =
        ⟨citations.flatMap fun c => (keysOf c.keys).filterMap fun key =>
            (complaint? c.name key).map fun message => ⟨.citationKeyError, message, c.start⟩,
          .ok (Edit.splice text 0 text.length (citations.map fun c =>
            ⟨c.start, c.stop, c.shown templates⟩))⟩ := by
  obtain ⟨citations, hcitations⟩ := exists_areCitations text
  exact ⟨citations, hcitations, fun others hothers => hothers.unique hcitations,
    format_of_areCitations hcitations templates⟩

end TexMark.Citation
