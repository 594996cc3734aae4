/-
  TexMark/Proofs/Theorem/LineStart.lean
  =====================================
  **Where a callout begins.**  A callout is written in the place of its environment, behind an
  empty line if other text than declarations stands in front of the environment on its line.  Its
  head begins a line then.  If nothing but blanks and declarations stands there, only the
  declarations go away.

    * `lastLine_splice_front` — what is left in front of such an environment on its line are the
      blanks of the line;
    * `head_of_callouts` — the head of every callout of a document begins a line, unless such
      blanks are left in front of it;
    * `head_of_indented` — an indented environment gives an indented head; and a declaration that
      goes on over the beginning of the line leaves the head behind text.
-/
import TexMark.Proofs.Environment.Regions
import TexMark.Proofs.Theorem.Block

namespace TexMark

namespace Text

variable {text t after : Text} {pos stop : Nat}

/-- The text in front of an offset ends in a character that is no blank. -/
def EndsSolid (text : Text) (pos : Nat) : Prop :=
  ∃ c ∈ (text.take pos).getLast?, isBlank c = false

theorem endsSolid_of_suffix {c : Char} (h : c :: after <:+ text) (hc : isBlank c = false) :
    EndsSolid text (text.length - after.length) := by
  obtain ⟨u, rfl⟩ := h
  have hlength : (u ++ c :: after).length - after.length = (u ++ [c]).length := by
    simp only [List.length_append, List.length_cons, List.length_nil]
    omega
  have htext : u ++ c :: after = (u ++ [c]) ++ after := by simp
  refine ⟨c, ?_, hc⟩
  rw [hlength, htext, List.take_left]
  simp

/-- A mark that ends in front of an offset, and begins on its line. -/
theorem EndsSolid.exists_slice (h : EndsSolid text pos) {start : Nat} (hstart : start < pos)
    (hpos : pos ≤ text.length) :
    ∃ u c, slice text start pos = u ++ [c] ∧ start + u.length + 1 = pos ∧ isBlank c = false := by
  obtain ⟨c, hlast, hc⟩ := h
  have hlength := length_slice start hpos
  obtain ⟨u, d, hslice⟩ : ∃ u d, slice text start pos = u ++ [d] := by
    have hne : slice text start pos ≠ [] := by
      intro hnil
      rw [hnil, List.length_nil] at hlength
      omega
    exact ⟨_, _, (List.dropLast_append_getLast hne).symm⟩
  have htake : text.take pos = text.take start ++ (u ++ [d]) := by
    rw [← hslice, slice]
    conv_lhs => rw [← List.take_append_drop start (text.take pos), List.take_take,
      Nat.min_eq_left (Nat.le_of_lt hstart)]
  rw [htake, ← List.append_assoc, List.getLast?_concat] at hlast
  cases hlast
  refine ⟨u, c, hslice, ?_, hc⟩
  rw [hslice, List.length_append, List.length_singleton] at hlength
  omega

/-- A character that does not stay lies in one of the ranges. -/
theorem exists_range_of_outsideFrom {ranges : List (Nat × Nat)} {u v : Text} {c : Char}
    (h : c ∉ outsideFrom ranges pos (u ++ c :: v)) :
    ∃ r ∈ ranges, r.1 ≤ pos + u.length ∧ pos + u.length < r.2 := by
  by_contra hnone
  apply h
  have hcovered : (ranges.all fun r =>
      decide (pos + u.length < r.1) || decide (r.2 ≤ pos + u.length))
      = true := by
    rw [List.all_eq_true]
    intro r hr
    by_contra hout
    simp only [Bool.or_eq_true, decide_eq_true_eq] at hout
    exact hnone ⟨r, hr, by omega, by omega⟩
  have hself : outsideFrom ranges (pos + u.length) [c] = [c] := by
    simp [outsideFrom, hcovered]
  rw [← List.singleton_append, outsideFrom_append, outsideFrom_append, hself]
  exact List.mem_append_right _ (List.mem_append_left _ (List.mem_singleton_self c))

theorem mem_of_mem_outsideFrom {ranges : List (Nat × Nat)} {c : Char}
    (h : c ∈ outsideFrom ranges pos t) : c ∈ t := by
  obtain ⟨p, hp, rfl⟩ := List.mem_map.mp h
  exact List.fst_mem_of_mem_zipIdx (List.mem_filter.mp hp).1

theorem atLineStart_reverse_iff : Scan.atLineStart t.reverse ↔ ∀ c ∈ t.getLast?, c = '\n' := by
  rw [List.getLast?_eq_head?_reverse]
  cases t.reverse with
  | nil => simp [Scan.atLineStart]
  | cons c r => simp [Scan.atLineStart]

theorem atLineStart_iff_lastLine : Scan.atLineStart t.reverse ↔ lastLine t = [] := by
  constructor
  · intro h
    have hlast := lastLine_eq h (List.not_mem_nil (a := '\n'))
    rwa [List.append_nil] at hlast
  · intro h
    obtain ⟨u, hu, hstart⟩ := exists_lastLine t
    rw [h, List.append_nil] at hu
    rwa [hu]

/-- What stands in front of an offset on its line. -/
def lineBefore (text : Text) (pos : Nat) : Text := slice text (Scan.lineStart text pos) pos

theorem lineBefore_spec (h : pos ≤ text.length) :
    Scan.lineStart text pos ≤ pos ∧ '\n' ∉ lineBefore text pos ∧
      Scan.atLineStart (text.take (Scan.lineStart text pos)).reverse := by
  obtain ⟨w, hw, hstart⟩ := exists_lastLine (text.take pos)
  have hlength : pos = w.length + (lastLine (text.take pos)).length := by
    rw [← List.length_append, ← hw, List.length_take_of_le h]
  have hlast : ((text.take pos).reverse.takeWhile (· != '\n')).length =
      (lastLine (text.take pos)).length := by
    rw [lastLine, List.rtakeWhile, List.length_reverse]
  have hlineStart : Scan.lineStart text pos = w.length := by
    simp only [Scan.lineStart, hlast, List.length_take_of_le h]
    omega
  have hfront : text.take w.length = w := by
    have htake := congrArg (List.take w.length) hw
    rwa [List.take_take, Nat.min_eq_left (by omega), List.take_left] at htake
  refine ⟨by omega, ?_, by rwa [hlineStart, hfront]⟩
  rw [lineBefore, slice, hlineStart, hw, List.drop_left]
  exact not_mem_lastLine _

end Text

/-- What is written up to the beginning of a line begins a line too, if every edit ends in no
    blank. -/
theorem Edit.getLast?_splice {text : Text} {start stop : Nat} {edits : List Edit}
    (h : Ordered start stop edits) (hlt : start < stop) (hsize : stop ≤ text.length)
    (hlast : (text.take stop).getLast? = some '\n')
    (hsolid : ∀ e ∈ edits, Text.EndsSolid text e.stop) :
    (splice text start stop edits).getLast? = some '\n' := by
  induction edits generalizing start with
  | nil =>
    rw [splice, Text.slice, List.getLast?_drop, if_neg, hlast]
    rw [List.length_take]
    omega
  | cons e edits ih =>
    obtain ⟨-, -, hstop⟩ := h.inside e List.mem_cons_self
    obtain ⟨hfirst, hsolid⟩ := List.forall_mem_cons.mp hsolid
    have hne : e.stop ≠ stop := by
      intro heq
      obtain ⟨c, hc, hblank⟩ := hfirst
      rw [heq, hlast] at hc
      cases hc
      revert hblank
      decide
    rw [splice, List.getLast?_append, ih h.of_cons (by omega) hsolid, Option.some_or]

theorem Edit.atLineStart_splice {text : Text} {stop : Nat} {edits : List Edit}
    (h : Ordered 0 stop edits) (hsize : stop ≤ text.length)
    (hstart : Scan.atLineStart (text.take stop).reverse)
    (hsolid : ∀ e ∈ edits, Text.EndsSolid text e.stop) :
    Scan.atLineStart (splice text 0 stop edits).reverse := by
  rw [Text.atLineStart_reverse_iff] at *
  rcases Nat.eq_zero_or_pos stop with rfl | hpos
  · have hnil : edits = [] := by
      rw [List.eq_nil_iff_forall_not_mem]
      intro e he
      have := h.inside e he
      omega
    subst hnil
    simp [splice, Text.slice]
  · have hne : text.take stop ≠ [] := by
      intro hnil
      have hlength := congrArg List.length hnil
      rw [List.length_take_of_le hsize, List.length_nil] at hlength
      omega
    have hlast := List.getLast?_eq_some_getLast hne
    have hfeed := hstart _ hlast
    rw [hfeed] at hlast
    intro c hc
    rw [getLast?_splice h hpos hsize hlast hsolid] at hc
    exact (Option.some.inj hc).symm

/-! ### Erasing -/

theorem NewTheorem.advances_erased : Scan.Advances erased := by
  intro before t value after h
  obtain ⟨r, hread, heq⟩ := Option.map_eq_some_iff.mp h
  cases heq
  exact read?_behind hread

namespace Environment

open Text (slice lastLine lineBefore outsideFrom EndsSolid)

variable {settings : Settings} {register : TheoremRegister} {text : Text} {start : Nat}

/-- The declarations that stand in front of an offset on its line. -/
def declarationsBefore (text : Text) (pos : Nat) : List (Hit Text) :=
  Scan.hitsFrom NewTheorem.erased (Scan.lineStart text pos) [] 0 (Text.lineBefore text pos)

/-- The line in front of an offset without its declarations. -/
def lineFront (text : Text) (pos : Nat) : Text :=
  Scan.replace NewTheorem.erased (Text.lineBefore text pos)

theorem isInline_eq (text : Text) (pos : Nat) :
    isInline text pos = !Text.isBlankText (lineFront text pos) := rfl

theorem lineFront_eq (text : Text) (pos : Nat) :
    lineFront text pos = outsideFrom
      ((declarationsBefore text pos).map fun h => (h.start, h.stop)) (Scan.lineStart text pos)
      (Text.lineBefore text pos) := by
  refine Scan.replaceFrom_eq_outsideFrom NewTheorem.advances_erased ?_ _ [] 0 _
  intro before t value after h
  obtain ⟨r, -, heq⟩ := Option.map_eq_some_iff.mp h
  cases heq
  rfl

theorem bounds_of_mem_declarationsBefore (hstart : start ≤ text.length) {h : Hit Text}
    (hmem : h ∈ declarationsBefore text start) :
    Scan.lineStart text start ≤ h.start ∧ h.start ≤ h.stop ∧ h.stop ≤ start := by
  have hbounds := Scan.bounds_of_mem_hitsFrom _ _ _ _ _ h hmem
  have hline := (Text.lineBefore_spec hstart).1
  rw [Text.lineBefore, Text.length_slice _ hstart] at hbounds
  omega

/-- Where nothing but blanks and declarations stands, a mark that is no blank lies in a
    declaration. -/
theorem exists_declaration_of_endsSolid (hline : isInline text start = false)
    (hstart : start ≤ text.length) {pos : Nat} (hpos : Scan.lineStart text start < pos)
    (hle : pos ≤ start) (hsolid : Text.EndsSolid text pos) :
    ∃ h ∈ declarationsBefore text start, h.start < pos ∧ pos ≤ h.stop := by
  obtain ⟨u, c, hslice, hlength, hc⟩ := hsolid.exists_slice hpos (by omega)
  have hbefore : Text.lineBefore text start = u ++ c :: slice text pos start := by
    rw [Text.lineBefore, ← Text.slice_append_slice text (Nat.le_of_lt hpos) hle hstart, hslice,
      List.append_assoc, List.singleton_append]
  have hgone : c ∉ lineFront text start := by
    intro hmem
    rw [isInline_eq, Bool.not_eq_false', Text.isBlankText, List.all_eq_true] at hline
    rw [hline c hmem] at hc
    cases hc
  rw [lineFront_eq, hbefore] at hgone
  obtain ⟨r, hr, hfirst, hlast⟩ := Text.exists_range_of_outsideFrom hgone
  obtain ⟨h, hmem, rfl⟩ := List.mem_map.mp hr
  exact ⟨h, hmem, by dsimp only at hfirst; omega, by dsimp only at hlast; omega⟩

/-! ### Marks end in no blank -/

theorem exists_token_of_mem_accepted {cursor : Nat} {todo : List (Hit Token)} {e : Hit Event}
    (h : e ∈ accepted settings text cursor register todo) :
    ∃ t ∈ todo, ∃ cursor' register', event? settings text cursor' register' t = some e := by
  induction todo generalizing cursor register with
  | nil => cases h
  | cons t todo ih =>
    rw [accepted] at h
    cases hevent : event? settings text cursor register t with
    | none =>
      rw [hevent] at h
      obtain ⟨t', ht', found⟩ := ih h
      exact ⟨t', List.mem_cons_of_mem t ht', found⟩
    | some e' =>
      rw [hevent] at h
      rcases List.mem_cons.mp h with rfl | h
      · exact ⟨t, List.mem_cons_self, cursor, register, hevent⟩
      · obtain ⟨t', ht', found⟩ := ih h
        exact ⟨t', List.mem_cons_of_mem t ht', found⟩

theorem brace_suffix_of_bracedName? {t name rest : Text} (h : bracedName? t = some (name, rest)) :
    '}' :: rest <:+ t := by
  simp only [bracedName?, Option.bind_eq_bind, Option.bind_eq_some_iff,
    Option.ite_none_left_eq_some, Option.some.injEq, Prod.mk.injEq,
    Markup.char?_eq_some_iff] at h
  obtain ⟨opened, hopened, closed, hclosed, -, -, rfl⟩ := h
  rw [← hclosed]
  calc Text.skipBlanks _ <:+ _ := Text.skipBlanks_suffix _
    _ <:+ Text.skipBlanks opened := List.dropWhile_suffix _
    _ <:+ opened := Text.skipBlanks_suffix _
    _ <:+ Text.skipBlanks t := hopened ▸ List.suffix_cons _ _
    _ <:+ t := Text.skipBlanks_suffix t

theorem brace_suffix_of_closing {before t after name : Text}
    (h : token before t = some (.closing name, after)) : '}' :: after <:+ t := by
  simp only [token, Option.orElse_eq_orElse, Option.orElse_eq_or, Option.or_eq_some_iff,
    Option.map_eq_some_iff, Option.bind_eq_some_iff, Prod.mk.injEq] at h
  rcases h with ⟨_, _, hvalue, _⟩ | ⟨-, ⟨⟨name', after'⟩, ⟨rest, hrest, hname⟩, -, rfl⟩ |
    ⟨-, ⟨_, _, hvalue, _⟩ | ⟨-, _, _, hvalue, _⟩⟩⟩
  · cases hvalue
  · exact (brace_suffix_of_bracedName? hname).trans (Markup.command?_behind hrest).1
  · cases hvalue
  · cases hvalue

/-- What stands in front of the end of a declaration. -/
theorem solid_suffix_of_read? {t after : Text} {command : NewTheorem}
    (h : NewTheorem.read? t = some (command, after)) :
    ∃ c, Text.isBlank c = false ∧ c :: after <:+ t := by
  simp only [NewTheorem.read?, Option.bind_eq_bind, Option.bind_eq_some_iff] at h
  obtain ⟨afterCommand, hcommand, ⟨name, afterName⟩, hname, ⟨heading, afterHeading⟩,
    hheading, hrest⟩ := h
  have hafterName : afterName <:+ t :=
    (Markup.flatBraces?_behind (NewTheorem.nonempty?_eq_some hname)).1.trans
      ((Text.skipBlanks_suffix _).trans ((Markup.star_suffix _).trans
        (Markup.command?_behind hcommand).1))
  have hbrace : '}' :: afterHeading <:+ t := by
    have hbrace := Markup.brace_suffix_of_flatBraces? (NewTheorem.nonempty?_eq_some hheading)
    split at hbrace
    · rename_i hshared
      exact hbrace.trans ((Text.skipBlanks_suffix _).trans
        ((Markup.flatBrackets?_behind (NewTheorem.nonempty?_eq_some hshared)).1.trans
          ((Text.skipBlanks_suffix _).trans hafterName)))
    · exact hbrace.trans ((Text.skipBlanks_suffix _).trans hafterName)
  split at hrest
  · rename_i hwithin
    cases hrest
    have hbracket := Markup.bracket_suffix_of_flatBrackets? (NewTheorem.nonempty?_eq_some hwithin)
    exact ⟨']', by decide, hbracket.trans ((Text.skipBlanks_suffix _).trans
      ((List.suffix_cons '}' _).trans hbrace))⟩
  · cases hrest
    exact ⟨'}', by decide, hbrace⟩

/-- The ends of environments and of declarations are no blanks. -/
theorem endsSolid_of_mem_events {e : Hit Event} (h : e ∈ events settings register text)
    (hvalue : (∃ name, e.value = .closing name) ∨ ∃ command, e.value = .declaration command) :
    EndsSolid text e.stop := by
  obtain ⟨t, ht, cursor, register', hevent⟩ := exists_token_of_mem_accepted h
  obtain ⟨hread, hlt, hstop⟩ := Scan.hit_spec advances_token ht
  unfold event? at hevent
  split at hevent
  · cases hevent
  · split at hevent
    · split at hevent <;> cases hevent
      simp at hvalue
    · rename_i name hclosing
      split at hevent <;> cases hevent
      rw [hclosing] at hread
      have hbrace := (brace_suffix_of_closing hread).trans (List.drop_suffix _ _)
      have hends := Text.endsSolid_of_suffix hbrace (by decide)
      rwa [List.length_drop, Nat.sub_sub_self hstop] at hends
    · split at hevent <;> cases hevent
      simp at hvalue
    · obtain ⟨⟨command, after⟩, hcommand, heq⟩ := Option.map_eq_some_iff.mp hevent
      cases heq
      obtain ⟨c, hc, hsuffix⟩ := solid_suffix_of_read? hcommand
      exact Text.endsSolid_of_suffix (hsuffix.trans (List.drop_suffix _ _)) hc

/-! ### Environments in the open -/

/-- An environment that stands in no other one, with the counters in front of it. -/
structure Site where
  opening : Marker
  closing : Marker
  before : Counters
  ending : Closing

namespace Forest

variable {forest : Forest} {c : Counters} {p : Marker × Marker} {e : Edit}

/-- The environments of a forest that stand in no other one. -/
def sites (settings : Settings) (text : Text) : Forest → Counters → List Site
  | nil, _ => []
  | leaf e rest, c => rest.sites settings text (c.after settings text e)
  | environment opening closing inner rest, c =>
    let v := closingOf settings text opening closing inner c
    ⟨opening, closing, c, v⟩ :: rest.sites settings text (v.after settings)

theorem map_sites (settings : Settings) (text : Text) (forest : Forest) (c : Counters) :
    (forest.sites settings text c).map (fun s => (s.opening, s.closing)) = forest.outermost := by
  induction forest generalizing c with
  | nil => rfl
  | leaf e rest ih => exact ih _
  | environment opening closing inner rest _ ih =>
    rw [sites, outermost, List.map_cons, ih]

/-- What is written in the place of an environment. -/
theorem spec_of_mem_sites {s : Site} (h : s ∈ forest.sites settings text c) :
    ⟨s.opening.start, s.closing.stop, (s.ending.converted settings).1⟩ ∈
        (forest.outcome settings text c).1 ∧
      s.ending ∈ forest.closings settings text c ∧
      s.ending.frame = (frameAt settings s.before.register text s.opening.name s.opening.start
        s.opening.stop).1 := by
  induction forest generalizing c with
  | nil => cases h
  | leaf e rest ih =>
    obtain ⟨hedit, hclosing, hframe⟩ := ih h
    rw [outcome_leaf]
    exact ⟨List.mem_append_right _ hedit, hclosing, hframe⟩
  | environment opening closing inner rest _ ih =>
    rw [outcome_environment, environmentEdit_eq, closings]
    rcases List.mem_cons.mp h with rfl | h
    · exact ⟨List.mem_cons_self, List.mem_append_right _ List.mem_cons_self, rfl⟩
    · obtain ⟨hedit, hclosing, hframe⟩ := ih h
      exact ⟨List.mem_cons_of_mem _ hedit,
        List.mem_append_right _ (List.mem_cons_of_mem _ hclosing), hframe⟩

/-- Every environment lies in one that stands in no other. -/
theorem exists_outermost {size : Nat} (h : Apart size forest.events)
    (hp : p ∈ forest.environments) :
    ∃ q ∈ forest.outermost, Covers q p.1.start p.2.stop := by
  induction forest with
  | nil => cases hp
  | leaf e rest ih => exact ih h.of_cons.1 hp
  | environment opening closing inner rest _ ih =>
    have hsplit := split_of_apart h
    rw [environments, List.mem_append, List.mem_cons] at hp
    rcases hp with hp | rfl | hp
    · have hinside := hsplit.environments_inside hp
      have hopening := hsplit.opening_lt
      have hclosing := hsplit.closing_lt
      refine ⟨(opening, closing), List.mem_cons_self, ?_, ?_⟩
      · exact (Nat.le_of_lt hopening).trans hinside.1
      · exact hinside.2.trans (Nat.le_of_lt hclosing)
    · exact ⟨(opening, closing), List.mem_cons_self, Nat.le_refl _, Nat.le_refl _⟩
    · obtain ⟨q, hq, hcovers⟩ := ih hsplit.apart_rest hp
      exact ⟨q, List.mem_cons_of_mem _ hq, hcovers⟩

/-- The outermost environments stand apart. -/
theorem outermost_trichotomy {size : Nat} (h : Apart size forest.events) {q : Marker × Marker}
    (hp : p ∈ forest.outermost) (hq : q ∈ forest.outermost) :
    p = q ∨ p.2.stop ≤ q.1.start ∨ q.2.stop ≤ p.1.start := by
  induction forest with
  | nil => cases hp
  | leaf e rest ih => exact ih h.of_cons.1 hp hq
  | environment opening closing inner rest _ ih =>
    have hsplit := split_of_apart h
    rcases List.mem_cons.mp hp with rfl | hp <;> rcases List.mem_cons.mp hq with rfl | hq
    · exact .inl rfl
    · exact .inr (.inl (hsplit.environments_behind (outermost_subset hq)).1)
    · exact .inr (.inr (hsplit.environments_behind (outermost_subset hp)).1)
    · exact ih hsplit.apart_rest hp hq

theorem lt_of_mem_environments {size : Nat} (h : Apart size forest.events)
    (hp : p ∈ forest.environments) : p.1.start < p.2.stop := by
  induction forest with
  | nil => cases hp
  | leaf e rest ih => exact ih h.of_cons.1 hp
  | environment opening closing inner rest ihInner ihRest =>
    have hsplit := split_of_apart h
    rw [environments, List.mem_append, List.mem_cons] at hp
    rcases hp with hp | rfl | hp
    · exact ihInner hsplit.apart_inner hp
    · exact hsplit.opening_lt.trans_le (hsplit.between.trans (Nat.le_of_lt hsplit.closing_lt))
    · exact ihRest hsplit.apart_rest hp

/-! ### The line in front of an environment -/

/-- An edit takes a declaration out, or stands for an environment, and it ends where one of them
    ends. -/
theorem event_of_mem_outcome (hapart : Apart text.length forest.events)
    (he : e ∈ (forest.outcome settings text c).1) :
    (∃ command, ⟨e.start, e.stop, .declaration command⟩ ∈ forest.events ∧ e.replacement = []) ∨
      ∃ q ∈ forest.outermost, e.start = q.1.start ∧ e.stop = q.2.stop := by
  rcases cases_of_mem_outcome settings text hapart c he with
    ⟨x, hx, ⟨command, hvalue⟩, rfl⟩ | ⟨q, hq, inner, c', -, -, rfl⟩
  · left
    refine ⟨command, ?_, rfl⟩
    rw [← hvalue]
    exact ((mem_exposed_iff hapart).mp hx).1
  · exact .inr ⟨q, hq, rfl, rfl⟩

section

variable (hapart : Apart text.length forest.events)
  (hsolid : ∀ x ∈ forest.events, (∃ name, x.value = .closing name) ∨
    (∃ command, x.value = .declaration command) → EndsSolid text x.stop)

include hapart hsolid

theorem endsSolid_of_mem_outcome (he : e ∈ (forest.outcome settings text c).1) :
    EndsSolid text e.stop := by
  rcases event_of_mem_outcome hapart he with ⟨command, hx, -⟩ | ⟨q, hq, -, hstop⟩
  · exact hsolid _ hx (.inr ⟨command, rfl⟩)
  · rw [hstop]
    exact hsolid _ (mem_events_of_environments (outermost_subset hq)).2 (.inl ⟨_, rfl⟩)

variable (hp : p ∈ forest.outermost) (hline : isInline text p.1.start = false)
  (hread : ∀ h ∈ declarationsBefore text p.1.start, ∃ command,
    ⟨h.start, h.stop, .declaration command⟩ ∈ forest.events)

include hp hline hread

omit hsolid hline hread in
theorem start_le_of_mem_outermost : p.1.start ≤ text.length := by
  have hopening := hapart.inside _ (mem_events_of_environments (outermost_subset hp)).1
  exact (Nat.le_of_lt hopening.1).trans hopening.2

/-- The marks that end on the line in front of an environment are the declarations there. -/
theorem declaration_of_mem_events {x : Hit Event} (hx : x ∈ forest.events)
    (hvalue : (∃ name, x.value = .closing name) ∨ ∃ command, x.value = .declaration command)
    (hstop : x.stop ≤ p.1.start) (hbehind : Scan.lineStart text p.1.start < x.stop) :
    ∃ h ∈ declarationsBefore text p.1.start, ∃ command,
      x = ⟨h.start, h.stop, .declaration command⟩ := by
  obtain ⟨h, hmem, hfirst, hlast⟩ := exists_declaration_of_endsSolid hline
    (start_le_of_mem_outermost hapart hp) hbehind hstop (hsolid x hx hvalue)
  obtain ⟨command, hdeclaration⟩ := hread h hmem
  refine ⟨h, hmem, command, ?_⟩
  -- two marks that share a character are the same
  by_contra hne
  have hlt := (hapart.inside x hx).1
  have hbetween : x.stop ≤ h.start ∨ h.stop ≤ x.start := hapart.of_ne hx hdeclaration hne
  omega

/-- **What is edited on the line in front of an environment** are the declarations there. -/
theorem declaration_of_mem_outcome (he : e ∈ (forest.outcome settings text c).1)
    (hstop : e.stop ≤ p.1.start) (hbehind : Scan.lineStart text p.1.start < e.stop) :
    ∃ h ∈ declarationsBefore text p.1.start, e = ⟨h.start, h.stop, []⟩ := by
  rcases event_of_mem_outcome hapart he with ⟨command, hx, hnil⟩ | ⟨q, hq, -, hqstop⟩
  · obtain ⟨h, hmem, command', heq⟩ := declaration_of_mem_events hapart hsolid hp hline hread hx
      (.inr ⟨command, rfl⟩) hstop hbehind
    rw [Hit.mk.injEq] at heq
    refine ⟨h, hmem, ?_⟩
    rw [← heq.1, ← heq.2.1, ← hnil]
  · obtain ⟨h, hmem, command, heq⟩ := declaration_of_mem_events hapart hsolid hp hline hread
      (mem_events_of_environments (outermost_subset hq)).2 (.inl ⟨_, rfl⟩)
      (by change q.2.stop ≤ _; omega) (by change _ < q.2.stop; omega)
    cases congrArg Hit.value heq

/-- Every declaration on the line in front of an environment is taken out. -/
theorem mem_outcome_of_declaration {h : Hit Text} (hmem : h ∈ declarationsBefore text p.1.start) :
    ⟨h.start, h.stop, []⟩ ∈ (forest.outcome settings text c).1 := by
  obtain ⟨command, hx⟩ := hread h hmem
  obtain ⟨hfirst, -, hlast⟩ :=
    bounds_of_mem_declarationsBefore (start_le_of_mem_outermost hapart hp) hmem
  have hlt : h.start < h.stop := (hapart.inside _ hx).1
  have huncovered : Uncovered forest.environments ⟨h.start, h.stop, .declaration command⟩ := by
    intro q hq hcovers
    obtain ⟨q', hq', hcovers'⟩ := exists_outermost hapart hq
    have hstart : q'.1.start ≤ h.start := hcovers'.1.trans hcovers.1
    have hstop : h.stop ≤ q'.2.stop := hcovers.2.trans hcovers'.2
    -- the environment around the declaration would end on the line
    have hbefore : q'.2.stop ≤ p.1.start := by
      have hlt' := lt_of_mem_environments hapart (outermost_subset hp)
      rcases outermost_trichotomy hapart hq' hp with rfl | hbefore | hbehind
      · omega
      · exact hbefore
      · omega
    obtain ⟨h', -, command', heq⟩ := declaration_of_mem_events hapart hsolid hp hline hread
      (mem_events_of_environments (outermost_subset hq')).2 (.inl ⟨_, rfl⟩) hbefore
      (by change _ < q'.2.stop; omega)
    cases congrArg Hit.value heq
  exact mem_outcome_of_exposed settings text ((mem_exposed_iff hapart).mpr ⟨hx, huncovered⟩) rfl c

/-- On the line the declarations are cut out, and nothing else is edited. -/
theorem splice_line (hordered : Edit.Ordered 0 text.length (forest.outcome settings text c).1) :
    Edit.splice text (Scan.lineStart text p.1.start) p.1.start
      (((forest.outcome settings text c).1.filter fun e => e.stop ≤ p.1.start).filter
        fun e => Scan.lineStart text p.1.start ≤ e.start) = lineFront text p.1.start := by
  have hsize := start_le_of_mem_outermost hapart hp
  obtain ⟨hle, -, -⟩ := Text.lineBefore_spec hsize
  have hinside := (hordered.filter_stop p.1.start).filter_start (Scan.lineStart text p.1.start)
  generalize hedits : ((forest.outcome settings text c).1.filter fun e => e.stop ≤ p.1.start).filter
    (fun e => Scan.lineStart text p.1.start ≤ e.start) = edits at hinside ⊢
  have hmem : ∀ e, e ∈ edits ↔
      ∃ h ∈ declarationsBefore text p.1.start, ⟨h.start, h.stop, []⟩ = e := by
    intro e
    rw [← hedits, List.mem_filter, List.mem_filter, decide_eq_true_eq, decide_eq_true_eq]
    constructor
    · rintro ⟨⟨he, hstop⟩, hstart⟩
      have hlt := (hordered.inside e he).2.1
      obtain ⟨h, hmem, rfl⟩ := declaration_of_mem_outcome hapart hsolid hp hline hread he hstop
        (Nat.lt_of_le_of_lt hstart hlt)
      exact ⟨h, hmem, rfl⟩
    · rintro ⟨h, hmem, rfl⟩
      obtain ⟨hfirst, -, hlast⟩ := bounds_of_mem_declarationsBefore hsize hmem
      exact ⟨⟨mem_outcome_of_declaration hapart hsolid hp hline hread hmem, hlast⟩, hfirst⟩
  have hcut : edits = (edits.map fun e => (e.start, e.stop)).map Edit.cut := by
    rw [List.map_map]
    refine (List.map_id _).symm.trans (List.map_congr_left fun e he => ?_)
    obtain ⟨h, -, rfl⟩ := (hmem e).mp he
    rfl
  rw [hcut, Edit.splice_cut (hcut ▸ hinside) hle hsize, lineFront_eq]
  apply Text.outsideFrom_congr
  intro r
  simp only [List.mem_map, hmem]
  constructor
  · rintro ⟨e, ⟨h, hmem, rfl⟩, rfl⟩
    exact ⟨h, hmem, rfl⟩
  · rintro ⟨h, hmem, rfl⟩
    exact ⟨_, ⟨h, hmem, rfl⟩, rfl⟩

/-- **What is left on the line** in front of an environment are the blanks of the line. -/
theorem lastLine_splice_front
    (hordered : Edit.Ordered 0 text.length (forest.outcome settings text c).1) :
    lastLine (Edit.splice text 0 p.1.start
      ((forest.outcome settings text c).1.filter fun e => e.stop ≤ p.1.start)) =
        lineFront text p.1.start := by
  have hsize := start_le_of_mem_outermost hapart hp
  obtain ⟨hle, hnot, hbegin⟩ := Text.lineBefore_spec hsize
  have hfront := hordered.filter_stop p.1.start
  rw [Edit.splice_split hfront (Nat.zero_le _) hle hsize,
    splice_line hapart hsolid hp hline hread hordered]
  · apply Text.lastLine_eq
    · refine Edit.atLineStart_splice (hfront.filter_stop _) (hle.trans hsize) hbegin ?_
      intro e he
      exact endsSolid_of_mem_outcome hapart hsolid (List.mem_filter.mp (List.mem_filter.mp he).1).1
    · intro hmem
      rw [lineFront_eq] at hmem
      exact hnot (Text.mem_of_mem_outsideFrom hmem)
  · intro e he
    obtain ⟨he, hstop⟩ := List.mem_filter.mp he
    by_cases hbehind : Scan.lineStart text p.1.start < e.stop
    · obtain ⟨h, hmem, rfl⟩ := declaration_of_mem_outcome hapart hsolid hp hline hread he
        (of_decide_eq_true hstop) hbehind
      exact .inr (bounds_of_mem_declarationsBefore hsize hmem).1
    · exact .inl (Nat.le_of_not_lt hbehind)

end

end Forest

/-! ### The heads of the callouts -/

theorem inline_frameAt (register : TheoremRegister) {name : Text}
    (hname : settings.converters.get? name = none) (start stop : Nat) :
    (frameAt settings register text name start stop).1.inline =
      (isTheorem register name && isInline text start) := by
  have hhas : settings.converters.has name = false := by
    rw [Table.has, hname]
    rfl
  unfold frameAt
  simp only [hhas, Bool.and_false, Bool.false_eq_true, if_false, Bool.not_false, Bool.and_true]
  split
  · rename_i htheorem
    split <;> simp [htheorem]
  · rename_i htheorem
    simp [htheorem]

/-- A callout begins with its marker. -/
theorem marker_prefix_render (register : TheoremRegister) (environment content : Text)
    (number? title? : Option Text) :
    "> [!".toList <+: Callout.render register environment content number? title? := by
  have hhead : "> [!".toList <+: Callout.headLine (Callout.nameFor environment) title? := by
    unfold Callout.headLine
    dsimp only
    split
    · rw [List.append_assoc]
      exact List.prefix_append _ _
    · rw [List.append_assoc, List.append_assoc]
      exact List.prefix_append _ _
  have hlines : ∀ (l : Text) (ls : List Text), l <+: Text.unlines (l :: ls) := by
    intro l ls
    rw [Text.unlines_cons]
    exact List.prefix_append _ _
  rw [Callout.render]
  exact hhead.trans ((hlines _ _).trans (List.prefix_append _ _))

/-- **The head of every callout.**  A callout that stands in no other environment has an empty line
    in front of it if its environment is a theorem where it begins, and other text than declarations
    precedes it on its line.  Its head begins a line exactly if it has that empty line, or nothing is
    left of the line in front of it.  If nothing but blanks and declarations precedes it, and the scan
    reads these declarations, then the blanks are left. -/
theorem head_of_callouts (settings : Settings) (register : TheoremRegister) (equations : Nat)
    (text : Text) :
    ∃ n, Nesting.Reached (events settings register text) n ∧
      let outcome := n.forest.outcome settings text ⟨register, equations⟩
      let sites := n.forest.sites settings text ⟨register, equations⟩
      let shown := Edit.splice text 0 text.length outcome.1
      (resolve settings register equations text).result =
        .ok ⟨shown, outcome.2.register, outcome.2.equations⟩ ∧
      (∀ p, IsMaximal (n.log.flatMap Entry.converted) p ↔
        p ∈ sites.map fun s => (s.opening, s.closing)) ∧
      ∀ s ∈ sites, s.ending.IsInstance settings →
        let start := s.opening.start
        let front := Edit.splice text 0 start (outcome.1.filter fun e => e.stop ≤ start)
        let apart := isTheorem s.before.register s.opening.name && isInline text start
        let gap : Text := if apart then ['\n', '\n'] else []
        let callout := Callout.render s.ending.counters.register s.ending.frame.name
          s.ending.content s.ending.frame.number? s.ending.frame.title?
        let behind := Edit.splice text s.closing.stop text.length
          (outcome.1.filter fun e => s.closing.stop ≤ e.start)
        shown = front ++ gap ++ (callout ++ behind) ∧ "> [!".toList <+: callout ∧
        (Scan.atLineStart (front ++ gap).reverse ↔ apart ∨ lastLine front = []) ∧
        (isInline text start = false →
          (∀ h ∈ declarationsBefore text start, ∃ command,
            ⟨h.start, h.stop, .declaration command⟩ ∈ events settings register text) →
          lastLine front = lineFront text start) := by
  obtain ⟨n, hn⟩ := Nesting.exists_reached (events settings register text)
  have hresult := (resolveUnder_of_reached settings text register equations mayNest hn).1
  rw [← resolve_eq_run] at hresult
  have hevents := hn.events_forest
  have hapart : Apart text.length n.forest.events :=
    hevents ▸ apart_events settings register text
  have hordered := ordered_outcome settings register equations text hn
  refine ⟨n, hn, hresult, ?_, ?_⟩
  · intro p
    rw [Forest.map_sites, Forest.mem_outermost_iff hapart, hn.environments_forest]
  · intro s hs hinstance
    obtain ⟨hedit, -, hframe⟩ := Forest.spec_of_mem_sites hs
    have hname : settings.converters.get? s.opening.name = none := by
      have hnone := hinstance.1
      rwa [hframe, name_frameAt] at hnone
    have hinline : s.ending.frame.inline =
        (isTheorem s.before.register s.opening.name && isInline text s.opening.start) := by
      rw [hframe, inline_frameAt s.before.register hname]
    have hp : (s.opening, s.closing) ∈ n.forest.outermost := by
      rw [← Forest.map_sites settings text n.forest ⟨register, equations⟩]
      exact List.mem_map_of_mem hs
    refine ⟨?_, marker_prefix_render _ _ _ _ _, ?_, ?_⟩
    · rw [Edit.splice_at text hordered hedit, Closing.converted_of_instance hinstance, hinline,
        List.append_assoc, List.append_assoc]
    · split
      · rename_i happly
        rw [happly, Text.atLineStart_reverse_iff]
        simp
      · rename_i happly
        rw [List.append_nil, Text.atLineStart_iff_lastLine]
        exact ⟨.inr, fun h => h.resolve_left happly⟩
    · intro hline hread
      refine Forest.lastLine_splice_front hapart ?_ hp hline ?_ hordered
      · intro x hx hvalue
        exact endsSolid_of_mem_events (hevents ▸ hx) hvalue
      · rwa [hevents]

/-- A declaration that goes on over the beginning of the line. -/
def brokenDeclaration : Text :=
  "Text. \\newtheorem{a}{B}[x\n\\newtheorem{c}{d}[y]" ++
    "\\begin{lemma}z\\end{lemma}"

/-- **Heads inside a line.**  Blanks in front of an environment stay in front of its head; and so
    does the text in front of a declaration that goes on over the beginning of the line, for the test
    takes its last line for another declaration. -/
theorem head_of_indented :
    let indented : Text := "  > [!lemma]\n> a\n\n"
    let behindText : Text := "Text. > [!lemma]\n> z\n\n"
    (resolve numberingSettings .empty 0 "  \\begin{lemma}a\\end{lemma}").result =
        .ok ⟨indented, .empty, 0⟩ ∧
      (∀ l ∈ Text.lines indented, ¬ "> [!".toList <+: l) ∧
    (resolve numberingSettings .empty 0 brokenDeclaration).result =
        .ok ⟨behindText, ⟨[("a", ⟨"a", "B", 0, some "x\n\\newtheorem{c}{d}[y", false,
          true⟩)], 0⟩, 0⟩ ∧
      ∀ l ∈ Text.lines behindText, ¬ "> [!".toList <+: l := by
  intro indented behindText
  refine ⟨?_, by decide, ?_, by decide⟩
  · rw [resolve_eq_run]
    rfl
  · rw [resolve_eq_run]
    rfl

end Environment

end TexMark
