/-
  TexMark/Proofs/Sizing/Cleaning.lean
  ===================================
  **What cleaning does to the lexemes of a text.**  The pairs of sizes, the single sizes in front
  of an invisible delimiter and in front of others, and the command for prose are replaced by four
  passes one after the other.  Each pass reduces the lexemes that the one before it has left.

    * `result_stripPairs_eq` — the pass over the pairs, which follows the edits along the lexemes;
    * `cleaned_of_harmless` — what is read of the cleaned text, if no pass takes the second
      backslash of a line break for its command, and nothing is glued;
    * `harmless_of_parted` — texts for which this can be seen at once;
    * `escaped_size_stripped` — what becomes of some others.
-/
import TexMark.Proofs.Delimiter.Output
import TexMark.Proofs.Sizing.Commands
import TexMark.Proofs.Sizing.Pairs

namespace TexMark.Sizing

open Markup
open Text (isAsciiLetter)

/-! ### Where sizes begin -/

variable {text : Text} {pos : Nat} {l : Lexeme} {ls : List Lexeme}

/-- Behind a lexeme nothing is escaped, unless it is a lone backslash. -/
theorem escapedBehind_spelled (hl : l.Formed ls) (hls : ls ≠ []) :
    Scan.escapedBehind false l.spelled = false := by
  cases l with
  | word w =>
    obtain ⟨hne, hw⟩ := hl
    have hlast := hw _ (List.getLast_mem hne)
    refine Scan.escapedBehind_of_getLast (t := '\\' :: w) (List.cons_ne_nil _ _) ?_
    rw [List.getLast_cons hne]
    exact Text.ne_backslash_of_isAsciiLetter hlast
  | symbol c => simp [Lexeme.spelled]
  | char c =>
    have hc : c ≠ '\\' := fun h => hls (hl h)
    simp [Lexeme.spelled, hc]

/-- From an offset on a text **reads** as some lexemes. -/
structure ReadsAs (text : Text) (pos : Nat) (ls : List Lexeme) : Prop where
  drop : text.drop pos = spell ls
  formed : Formed ls
  unglued : Unglued ls
  unescaped : ls ≠ [] → Scan.isEscaped text pos = false

namespace ReadsAs

theorem next (h : ReadsAs text pos (l :: ls)) : ReadsAs text (pos + l.spelled.length) ls where
  drop := Text.drop_of_drop h.drop
  formed := h.formed.2
  unglued := h.unglued.2
  unescaped hls := by
    rw [Scan.isEscaped_add h.drop, h.unescaped (List.cons_ne_nil l ls),
      escapedBehind_spelled h.formed.1 hls]

theorem le_length (h : ReadsAs text pos (l :: ls)) : pos + l.spelled.length ≤ text.length := by
  have hlength := congrArg List.length h.drop
  have := l.length_spelled_pos
  rw [List.length_drop, spell_cons, List.length_append] at hlength
  omega

/-- A size that counts begins where a word does. -/
theorem start_eq (h : ReadsAs text pos (l :: ls)) {size : Hit Sized}
    (hoccurs : Scan.Occurs sized text size) (hle : pos ≤ size.start)
    (hlt : size.start < pos + l.spelled.length) : size.start = pos ∧ ∃ w, l = .word w := by
  obtain ⟨name, rest, hname, hread, -⟩ := exists_of_sized hoccurs.read
  obtain ⟨b, t, hread, hb⟩ : ∃ b t, text.drop size.start = '\\' :: b :: t ∧ isAsciiLetter b := by
    rcases hname with rfl | rfl
    · exact ⟨'l', _, hread, by decide⟩
    · exact ⟨'r', _, hread, by decide⟩
  have hl := h.formed.1
  -- the place inside of the lexeme
  obtain ⟨i, hi⟩ := Nat.exists_eq_add_of_le hle
  rw [hi, ← List.drop_drop, h.drop, spell_cons, List.drop_append_of_le_length (by omega)] at hread
  rw [hi] at hlt
  cases l with
  | word w =>
    refine ⟨?_, w, rfl⟩
    cases i with
    | zero => exact hi
    | succ i =>
      have hinside : i < w.length := by simpa [Lexeme.spelled] using hlt
      rw [Lexeme.spelled, List.drop_succ_cons, List.drop_eq_getElem_cons hinside] at hread
      have hletter := hl.2 _ (List.getElem_mem hinside)
      rw [(List.cons.inj hread).1] at hletter
      exact absurd hletter (by decide)
  | symbol c =>
    have hletter : ¬ isAsciiLetter c = true := hl
    have hcases : i = 0 ∨ i = 1 := by
      have : i < 2 := by simpa [Lexeme.spelled] using hlt
      omega
    rcases hcases with rfl | rfl
    · obtain ⟨-, hread⟩ := List.cons.inj hread
      rw [(List.cons.inj hread).1] at hletter
      exact absurd hb hletter
    · -- the second character of a symbol is escaped
      have hsecond : Scan.isEscaped text (pos + 1) = true := by
        have hadd := Scan.isEscaped_add (u := ['\\']) (t := c :: spell ls) h.drop
        rw [h.unescaped (List.cons_ne_nil _ _)] at hadd
        exact hadd
      rw [← hi, hoccurs.unescaped] at hsecond
      cases hsecond
  | char c =>
    have hzero : i = 0 := by
      have : i < 1 := by simpa [Lexeme.spelled] using hlt
      omega
    subst hzero
    obtain ⟨rfl, hread⟩ := List.cons.inj hread
    rw [hl rfl] at hread
    cases hread

end ReadsAs

/-! ### The pass over the pairs -/

/-- Some sizes are those that **go**, of which the offsets are given, from a place on. -/
structure Going (text : Text) (gone : List Nat) (start : Nat) (sizes : List (Hit Sized)) :
    Prop where
  ordered : sizes.Pairwise fun a b => a.stop ≤ b.start
  each : ∀ h ∈ sizes, Scan.Occurs sized text h ∧ isPlain h.value.delimiter = true
  le_start : ∀ h ∈ sizes, start ≤ h.start
  mem_iff : ∀ p, start ≤ p → (p ∈ gone ↔ ∃ h ∈ sizes, h.start = p)

namespace Going

variable {gone : List Nat} {start start' : Nat} {h : Hit Sized} {sizes : List (Hit Sized)}

theorem later (hgoing : Going text gone start sizes) (hle : start ≤ start')
    (hstarts : ∀ h ∈ sizes, start' ≤ h.start) : Going text gone start' sizes where
  ordered := hgoing.ordered
  each := hgoing.each
  le_start := hstarts
  mem_iff p hp := hgoing.mem_iff p (Nat.le_trans hle hp)

theorem of_cons (hgoing : Going text gone start (h :: sizes)) (hlt : h.start < start')
    (hle : start' ≤ h.stop) : Going text gone start' sizes where
  ordered := (List.pairwise_cons.mp hgoing.ordered).2
  each := (List.forall_mem_cons.mp hgoing.each).2
  le_start k hk := Nat.le_trans hle ((List.pairwise_cons.mp hgoing.ordered).1 k hk)
  mem_iff p hp := by
    have hstart := hgoing.le_start h List.mem_cons_self
    have hne : h.start ≠ p := by omega
    rw [hgoing.mem_iff p (by omega)]
    simp [hne]

/-- The first of the sizes begins where one does. -/
theorem exists_first (hgoing : Going text gone start sizes) (hmem : start ∈ gone) :
    ∃ h sizes', sizes = h :: sizes' ∧ h.start = start := by
  obtain ⟨k, hk, hstart⟩ := (hgoing.mem_iff start (Nat.le_refl _)).mp hmem
  cases sizes with
  | nil => cases hk
  | cons h sizes =>
    refine ⟨h, sizes, rfl, ?_⟩
    rcases List.mem_cons.mp hk with rfl | hk
    · exact hstart
    · have := (List.pairwise_cons.mp hgoing.ordered).1 k hk
      have := (hgoing.each h List.mem_cons_self).1.lt
      have := hgoing.le_start h List.mem_cons_self
      omega

/-- Where none of the sizes begins, all of them begin behind the lexeme. -/
theorem le_of_not_mem (hgoing : Going text gone pos sizes) (hreads : ReadsAs text pos (l :: ls))
    (hpos : pos ∉ gone) : ∀ h ∈ sizes, pos + l.spelled.length ≤ h.start := by
  intro h hh
  by_contra hlt
  have hstart := (hreads.start_eq (hgoing.each h hh).1 (hgoing.le_start h hh)
    (Nat.lt_of_not_le hlt)).1
  exact hpos ((hgoing.mem_iff pos (Nat.le_refl _)).mpr ⟨h, hh, hstart⟩)

end Going

theorem reach?_paired_of_not_mem {gone : List Nat} (hpos : pos ∉ gone) :
    (paired gone).reach? pos l ls = none := by
  cases h : (paired gone).reach? pos l ls with
  | none => rfl
  | some k =>
    obtain ⟨w, -, -, -, -, hcommand, -⟩ := Reduction.exists_of_reach? h
    simp [paired, hpos] at hcommand

/-- **What is written of a size that goes**: its delimiter, or nothing of an invisible one. -/
theorem splice_bare {h : Hit Sized} {d : Lexeme} {t : Text} {q : Nat} {es : List Edit}
    (hdelimiter : h.value.delimiter = d.spelled) (hd : isDelimiter d = true ∨ d = .char '.')
    (ht : text.drop q = d.spelled ++ t) (hstop : h.stop = q + d.spelled.length)
    (hle : h.stop ≤ text.length) (hes : ∀ e ∈ es, h.stop ≤ e.start) :
    Edit.splice text h.start text.length (bare h :: es) =
      Edit.splice text (q + if d = .char '.' then d.spelled.length else 0) text.length es := by
  have hempty : Text.slice text h.start h.start = [] :=
    List.drop_eq_nil_of_le (List.length_take_le _ _)
  have hcut : Edit.splice text h.start text.length (bare h :: es) =
      (bare h).replacement ++ Edit.splice text h.stop text.length es := by
    rw [Edit.splice]
    change Text.slice text h.start h.start ++ _ ++ _ = _
    rw [hempty, List.nil_append]
    rfl
  rw [hcut, bare, hdelimiter]
  by_cases hdot : d = .char '.'
  · rw [if_pos hdot, hstop, hdot]
    rfl
  · have hspelled : d.spelled ≠ ['.'] := by
      rintro hspelled
      cases d with
      | word w => simp [isDelimiter] at hd
      | symbol c => simp [Lexeme.spelled] at hspelled
      | char c =>
        obtain rfl := List.singleton_inj.mp hspelled
        exact hdot rfl
    rw [hstop] at hle hes
    rw [if_neg hdot, Nat.add_zero, Edit.splice_copy ht hle hes, hstop, if_neg hspelled]

/-- **One size that goes** is one step of the reduction. -/
theorem exists_reach {gone : List Nat} {h : Hit Sized} {sizes : List (Hit Sized)}
    (hreads : ReadsAs text pos (l :: ls)) (hgoing : Going text gone pos (h :: sizes))
    (hstart : h.start = pos) (hpos : pos ∈ gone) :
    ∃ k, (paired gone).reach? pos l ls = some k ∧
      Going text gone (pos + l.spelled.length + (spell (ls.take k)).length) sizes ∧
      Edit.splice text pos text.length ((h :: sizes).map bare) =
        Edit.splice text (pos + l.spelled.length + (spell (ls.take k)).length) text.length
          (sizes.map bare) := by
  obtain ⟨hoccurs, hplain⟩ := hgoing.each h List.mem_cons_self
  have hlt : h.start < pos + l.spelled.length := by
    have := l.length_spelled_pos
    omega
  obtain ⟨-, w, rfl⟩ := hreads.start_eq hoccurs (Nat.le_of_eq hstart.symm) hlt
  have hread := hoccurs.read
  rw [hstart, hreads.drop, spell_cons, Lexeme.spelled, List.cons_append] at hread
  obtain ⟨hname, blanks, d, rest, rfl, hblanks, hblank, hdelimiter, hafter, hd⟩ :=
    sized_spell hread hreads.formed.1.2 (hreads.unglued.1 rfl) hreads.formed.2 hplain
  -- the delimiter stands at `q`
  obtain ⟨q, hq⟩ : ∃ q, q = pos + (Lexeme.word w).spelled.length + (spell blanks).length := ⟨_, rfl⟩
  have hdrop : text.drop q = d.spelled ++ spell rest := by
    have hnext := hreads.next.drop
    rw [spell_append, spell_cons] at hnext
    rw [hq, Text.drop_of_drop hnext]
  have hstop : h.stop = q + d.spelled.length := by
    have hlength := congrArg List.length hafter
    have hlength' := congrArg List.length hdrop
    have := d.length_spelled_pos
    have := hoccurs.le
    rw [List.length_drop] at hlength
    rw [List.length_drop, List.length_append] at hlength'
    omega
  have htake : pos + (Lexeme.word w).spelled.length +
      (spell ((blanks ++ d :: rest).take
        (blanks.length + if d = .char '.' then 1 else 0))).length =
      q + if d = .char '.' then d.spelled.length else 0 := by
    rw [List.take_length_add_append, hq]
    split
    · simp [Nat.add_assoc]
    · simp
  have hbehind : ∀ e ∈ sizes.map bare, h.stop ≤ e.start := by
    rw [List.forall_mem_map]
    exact (List.pairwise_cons.mp hgoing.ordered).1
  have hbare := splice_bare hdelimiter hd hdrop hstop hoccurs.le hbehind
  rw [hstart] at hbare
  refine ⟨_, Reduction.reach?_eq_some_iff.mpr ⟨w, blanks, d, rest, rfl, rfl, hblanks, hblank,
    by simpa [paired, hpos] using hname, by simpa [paired] using hd, rfl⟩, ?_, ?_⟩
  · rw [htake]
    refine hgoing.of_cons ?_ ?_
    · omega
    · rw [hstop]
      split
      · exact Nat.le_refl _
      · exact Nat.le_add_right q _
  · rw [htake, List.map_cons, hbare]

/-- **The edits of the pairs reduce the lexemes.** -/
theorem splice_spell {gone : List Nat} {k : Nat} (hk : k ≤ ls.length) {sizes : List (Hit Sized)}
    (hreads : ReadsAs text pos ls)
    (hgoing : Going text gone (pos + (spell (ls.take k)).length) sizes) :
    Edit.splice text (pos + (spell (ls.take k)).length) text.length (sizes.map bare) =
      spell ((paired gone).reduceFrom pos k ls) := by
  induction ls generalizing pos k sizes with
  | nil =>
    have hend : text.length ≤ pos := by simpa using hreads.drop
    rw [List.take_nil, spell_nil, List.length_nil, Nat.add_zero] at hgoing ⊢
    cases sizes with
    | nil =>
      rw [List.map_nil, Edit.splice, Text.slice, List.take_length, hreads.drop]
      rfl
    | cons h sizes =>
      obtain ⟨-, hlt, hle, -⟩ := (hgoing.each h List.mem_cons_self).1
      have := hgoing.le_start h List.mem_cons_self
      omega
  | cons l ls ih =>
    cases k with
    | succ k =>
      have hlength : pos + (spell ((l :: ls).take (k + 1))).length =
          pos + l.spelled.length + (spell (ls.take k)).length := by
        rw [List.take_succ_cons, spell_cons, List.length_append, Nat.add_assoc]
      rw [hlength] at hgoing ⊢
      exact ih (Nat.le_of_succ_le_succ hk) hreads.next hgoing
    | zero =>
      rw [List.take_zero, spell_nil, List.length_nil, Nat.add_zero] at hgoing ⊢
      rw [Reduction.reduceFrom]
      by_cases hpos : pos ∈ gone
      · obtain ⟨h, sizes, rfl, hstart⟩ := hgoing.exists_first hpos
        obtain ⟨k, hreach, hbehind, hsplice⟩ := exists_reach hreads hgoing hstart hpos
        rw [hreach, hsplice, ih (Reduction.le_length_of_reach? hreach) hreads.next hbehind]
        rfl
      · have hbehind := hgoing.le_of_not_mem hreads hpos
        have hrest := ih (k := 0) (Nat.zero_le _) hreads.next
          (hgoing.later (Nat.le_add_right _ _) hbehind)
        rw [List.take_zero, spell_nil, List.length_nil, Nat.add_zero] at hrest
        rw [reach?_paired_of_not_mem hpos,
          Edit.splice_copy hreads.drop hreads.le_length (by simpa [bare] using hbehind), hrest,
          spell_cons]

/-- The lexemes that are left when the pairs of sizes have gone. -/
def unpaired (text : Text) : List Lexeme :=
  (paired ((strippedPairs (found text)).map Hit.start)).reduce (lexemes text)

theorem result_stripPairs_eq (text : Text) :
    (stripPairs text).result = .ok (spell (unpaired text)) := by
  obtain ⟨gone, hgone, hperm, -, hresult⟩ := exists_gone text
  have hreads : ReadsAs text 0 (lexemes text) :=
    ⟨(spell_lexemes text).symm, formed_lexemes text, unglued_lexemes text, fun _ => rfl⟩
  have hgoing : Going text ((strippedPairs (found text)).map Hit.start) 0
      ((found text).filter gone) := by
    refine ⟨((pairwise_found text).filter _).imp And.left, ?_, fun _ _ => Nat.zero_le _, ?_⟩
    · intro h hmem
      obtain ⟨hfound, hgoes⟩ := List.mem_filter.mp hmem
      obtain ⟨hhit, hunescaped⟩ := List.mem_filter.mp hfound
      obtain ⟨hread, hlt, hle⟩ := Scan.hit_spec advances_sized hhit
      refine ⟨⟨hread, hlt, hle, by simpa using hunescaped⟩, ?_⟩
      obtain ⟨k, ⟨-, hplain⟩ | ⟨-, hplain⟩⟩ := (hgone h).mp hgoes
      · exact (Bool.and_eq_true_iff.mp hplain).1
      · exact (Bool.and_eq_true_iff.mp hplain).2
    · intro p _
      rw [List.mem_map]
      exact exists_congr fun h => and_congr_left fun _ => hperm.mem_iff
  have hsplice := splice_spell (k := 0) (Nat.zero_le _) hreads hgoing
  rw [List.take_zero] at hsplice
  exact hresult.trans (congrArg Except.ok hsplice)

/-! ### Cleaned texts -/

/-- The names of all sizes. -/
def sizeNames : List Text := "left".toList :: "right".toList :: bigNames

/-- The command for prose is **renamed** in front of a group. -/
def renamed : List Lexeme → List Lexeme
  | [] => []
  | l :: ls =>
    (if l = .word "text" ∧ ls.head? = some (.char '{') then .word "mathrm" else l) :: renamed ls

/-- A text is **cleaned** if sizes have been taken out of what is read of it, with the dots of
    invisible delimiters, and the command for prose has been renamed. -/
def Cleaned (text out : Text) : Prop :=
  ∃ ms, Thinned (· ∈ sizeNames) (Markup.tokens text) ms ∧ Markup.tokens out = renamed ms

theorem unblanked_proses {k : Nat} :
    unblanked (proses.reduceFrom pos k ls) = renamed (unblanked (ls.drop k)) := by
  fun_induction Reduction.reduceFrom proses pos k ls with
  | case1 k => rw [List.drop_nil]; rfl
  | case2 pos l ls skip ih => exact ih
  | case3 pos l ls hreach ih =>
    rw [List.drop_zero] at ih ⊢
    cases hblank : l.isBlank with
    | true => simpa [unblanked, hblank] using ih
    | false =>
      have hkeep : ¬ (l = .word "text" ∧ (unblanked ls).head? = some (.char '{')) := by
        rintro ⟨rfl, hhead⟩
        rw [head?_unblanked] at hhead
        obtain ⟨rest, hrest⟩ := List.head?_eq_some_iff.mp hhead
        simp [Reduction.reach?, hrest, proses] at hreach
      have hcons (ms : List Lexeme) : unblanked (l :: ms) = l :: unblanked ms := by
        simp [unblanked, hblank]
      rw [hcons, hcons, renamed, if_neg hkeep, ih]
  | case4 pos l ls k hreach ih =>
    obtain ⟨w, blanks, d, rest, rfl, rfl, hblanks, -, hcommand, hfollows, rfl⟩ :=
      Reduction.reach?_eq_some_iff.mp hreach
    obtain rfl : w = "text".toList := by simpa [proses] using hcommand
    obtain rfl : d = .char '{' := by simpa [proses] using hfollows
    have hdot : Lexeme.char '{' ≠ Lexeme.char '.' := by decide
    rw [if_neg hdot, Nat.add_zero] at ih ⊢
    rw [List.drop_left] at ih
    have hread : unblanked (.word "text" :: (blanks ++ .char '{' :: rest)) =
        .word "text" :: .char '{' :: unblanked rest := by
      rw [unblanked, List.filter_cons_of_pos rfl, ← unblanked, unblanked_append,
        unblanked_blanks hblanks]
      rfl
    rw [List.drop_zero, hread, renamed, if_pos ⟨rfl, rfl⟩, unblanked_append, ih]
    rfl

/-- The lexemes that are left when all sizes have gone. -/
def kept (text : Text) : List Lexeme := singles.reduce (invisibles.reduce (unpaired text))

/-- In a **harmless** text the lexemes that are left are not glued, and no line break stands in
    front of letters that a pass takes for its command. -/
structure Harmless (text : Text) : Prop where
  unglued : Unglued (kept text)
  invisible : invisibles.Spares (unpaired text)
  single : singles.Spares (invisibles.reduce (unpaired text))
  prose : proses.Spares (kept text)

theorem result_stripAll_eq (text : Text) : (stripAll text).result =
    .ok (Scan.replace single (Scan.replace invisible (spell (unpaired text)))) := by
  rw [stripAll, Noted.bind_of_ok (result_stripPairs_eq text)]
  rfl

/-- **Harmless texts are cleaned.** -/
theorem cleaned_of_harmless {text : Text} (h : Harmless text) :
    ∃ out, (stripAll text).result = .ok out ∧ Cleaned text (Layout.unifyProse out) := by
  have hunglued : Unglued (invisibles.reduce (unpaired text)) := unglued_of_reduce h.unglued
  have hunglued' : Unglued (unpaired text) := unglued_of_reduce hunglued
  have hformed : Formed (unpaired text) := formed_reduce (formed_lexemes text)
  have hformed' : Formed (invisibles.reduce (unpaired text)) := formed_reduce hformed
  have hkept : Formed (kept text) := formed_reduce hformed'
  have hresult : (stripAll text).result = .ok (spell (kept text)) := by
    rw [result_stripAll_eq, replace_spell reads_invisible hformed h.invisible hunglued',
      replace_spell reads_single hformed' h.single hunglued]
    rfl
  refine ⟨_, hresult, unblanked (kept text), ?_, ?_⟩
  · have hbig : ∀ (pos : Nat) (w : Text), bigNames.contains w = true → w ∈ sizeNames :=
      fun _ _ hw => List.mem_cons_of_mem _ (List.mem_cons_of_mem _ (List.contains_iff_mem.mp hw))
    have hpair : ∀ pos w, (paired ((strippedPairs (found text)).map Hit.start)).command pos w →
        w ∈ sizeNames := by
      intro pos w hw
      obtain ⟨-, hw⟩ := Bool.and_eq_true_iff.mp hw
      rcases Bool.or_eq_true_iff.mp hw with hw | hw
      · rw [eq_of_beq hw]
        exact List.mem_cons_self
      · rw [eq_of_beq hw]
        exact List.mem_cons_of_mem _ List.mem_cons_self
    exact ((thinned_reduce hpair rfl _).trans (thinned_reduce (r := invisibles) hbig rfl _)).trans
      (thinned_reduce (r := singles) hbig rfl _)
  · rw [Layout.unifyProse, replace_spell reads_prose hkept h.prose h.unglued, Markup.tokens,
      lexemes_spell (formed_reduce hkept)
        (parted_reduce (fun hdot => absurd hdot (by decide)) h.unglued)]
    exact unblanked_proses

/-- A text with a line break and a dot that goes. -/
theorem cleaned_lineBreak :
    Harmless "\\left( \\big| \\text {x}\\right) \\\\ y \\Bigg.z" ∧
    ∃ out, (stripAll "\\left( \\big| \\text {x}\\right) \\\\ y \\Bigg.z").result = .ok out ∧
      Cleaned "\\left( \\big| \\text {x}\\right) \\\\ y \\Bigg.z" (Layout.unifyProse out) := by
  have h : Harmless "\\left( \\big| \\text {x}\\right) \\\\ y \\Bigg.z" :=
    ⟨by decide +kernel, by decide +kernel, by decide +kernel, by decide +kernel⟩
  exact ⟨h, cleaned_of_harmless h⟩

/-- **Without line breaks, and without dots in front of letters**, a text is harmless. -/
theorem harmless_of_parted {text : Text} (hbreak : .symbol '\\' ∉ lexemes text)
    (hdots : Parted (· == .char '.') (lexemes text)) : Harmless text := by
  have hparted : Parted (fun l => l.isWord || l == .char '.') (kept text) :=
    parted_reduce (fun _ => rfl) (parted_reduce (fun _ => rfl) (parted_reduce (fun _ => rfl)
      ((unglued_lexemes text).or hdots)))
  have hunpaired : .symbol '\\' ∉ unpaired text := fun h => hbreak (mem_of_mem_reduceFrom h)
  have hinvisible : .symbol '\\' ∉ invisibles.reduce (unpaired text) :=
    fun h => hunpaired (mem_of_mem_reduceFrom h)
  have hkept : .symbol '\\' ∉ kept text := fun h => hinvisible (mem_of_mem_reduceFrom h)
  exact ⟨hparted.mono fun l hl => by simp [hl], Reduction.spares_of_not_mem hunpaired,
    Reduction.spares_of_not_mem hinvisible, Reduction.spares_of_not_mem hkept⟩

/-! ### Texts that are harmed -/

theorem mem_renamed {ms : List Lexeme} (h : l ∈ renamed ms) : l ∈ ms ∨ l = .word "mathrm" := by
  induction ms with
  | nil => cases h
  | cons m ms ih =>
    rcases List.mem_cons.mp h with rfl | h
    · split
      · exact .inr rfl
      · exact .inl List.mem_cons_self
    · exact (ih h).imp_left (List.mem_cons_of_mem m)

/-- **Nothing new is read** of a cleaned text, but the command for prose. -/
theorem Cleaned.mem {out : Text} (h : Cleaned text out) (hmem : l ∈ Markup.tokens out) :
    l ∈ Markup.tokens text ∨ l = .word "mathrm" := by
  obtain ⟨ms, hthinned, hout⟩ := h
  rw [hout] at hmem
  exact (mem_renamed hmem).imp_left (hthinned.subset ·)

/-- The second backslash of a line break is taken for a command, and what stood around an
    invisible delimiter is glued. -/
theorem escaped_size_stripped :
    ((stripAll "a \\\\big( b").result = .ok "a \\( b" ∧
      ¬ Cleaned "a \\\\big( b" (Layout.unifyProse "a \\( b")) ∧
    ((stripAll "\\\\text{a}").result = .ok "\\\\text{a}" ∧
      ¬ Cleaned "\\\\text{a}" (Layout.unifyProse "\\\\text{a}")) ∧
    (stripAll "\\alpha\\big.x").result = .ok "\\alphax" ∧
      ¬ Cleaned "\\alpha\\big.x" (Layout.unifyProse "\\alphax") := by
  refine ⟨⟨(result_stripAll_eq _).trans rfl, ?_⟩, ⟨(result_stripAll_eq _).trans rfl, ?_⟩,
    (result_stripAll_eq _).trans rfl, ?_⟩
  · intro h
    have hnew := h.mem (l := .symbol '(') (by decide +kernel)
    revert hnew
    decide +kernel
  · intro h
    have hnew := h.mem (l := .char 'm') (by decide +kernel)
    revert hnew
    decide +kernel
  · intro h
    have hnew := h.mem (l := .word "alphax") (by decide +kernel)
    revert hnew
    decide +kernel

end TexMark.Sizing
