/-
  TexMark/Proofs/Delimiter/Output.lean
  ====================================
  **What a run writes.**  `Rewritten` goes along a text and what a run makes of it: gaps and lone
  delimiters are copied, and a formula stands where a pair was.  Every run writes in this way
  (`rewritten_output`).

    * `Dialect.across`, `Rewritten.head` — a border between what is copied and what is written
      makes no delimiter;
    * `values_delimiters_output` — the delimiters in what is written are the lone ones: none is
      lost, and none comes into being.
-/
import TexMark.Proofs.Delimiter.Dialect

namespace TexMark

namespace Edit

variable {text s t : Text} {pos stop : Nat}

/-- Text in front of the first edit is copied. -/
theorem splice_copy {edits : List Edit} (h : text.drop pos = s ++ t)
    (hstop : pos + s.length ≤ stop) (hedits : ∀ e ∈ edits, pos + s.length ≤ e.start) :
    splice text pos stop edits = s ++ splice text (pos + s.length) stop edits := by
  cases edits with
  | nil => exact Text.slice_split h hstop
  | cons e edits =>
    have he := hedits e List.mem_cons_self
    simp only [splice, Text.slice_split h he, List.append_assoc]

end Edit

namespace Delimiter

variable {rules : List DelimiterRule} {text : Text}

/-- What a run writes. -/
def output (rules : List DelimiterRule) (text : Text) : Text :=
  Edit.splice text 0 text.length (edits text (found rules text))

/-- **What is made of a text** from a place on, where delimiters make up some items. -/
inductive Rewritten (rules : List DelimiterRule) (text : Text) :
    Nat → Text → List Item → Text → Prop
  | last {pos : Nat} {t : Text} : Bare (marks rules) false t → Rewritten rules text pos t [] t
  | lone {pos : Nat} {t gap rest out : Text} {h : Hit Text} {is : List Item} :
    First rules false pos t gap h rest → Rewritten rules text h.stop rest is out →
    Rewritten rules text pos t (.lone h :: is) (gap ++ (h.value ++ out))
  | pair {pos : Nat} {t gap rest inner rest' out : Text} {rule : DelimiterRule} {h k : Hit Text}
    {is : List Item} : rule ∈ rules → First rules false pos t gap h rest →
    First rules false h.stop rest inner k rest' → Rewritten rules text k.stop rest' is out →
    Rewritten rules text pos t (.pair rule h k :: is)
      (gap ++ (render rule text h.start inner ++ out))

namespace First

variable {pos : Nat} {t gap rest : Text} {h : Hit Text}

theorem drop_start_eq (hfirst : First rules false pos t gap h rest) (ht : text.drop pos = t) :
    text.drop h.start = h.value ++ rest := by
  rw [hfirst.start]
  exact Text.drop_of_drop (ht.trans hfirst.eq)

theorem drop_eq (hfirst : First rules false pos t gap h rest) (ht : text.drop pos = t) :
    text.drop h.stop = rest := by
  rw [hfirst.stop]
  exact Text.drop_of_drop (hfirst.drop_start_eq ht)

theorem stop_le (hfirst : First rules false pos t gap h rest) (ht : text.drop pos = t)
    (hpos : pos ≤ text.length) : h.stop ≤ text.length := by
  have hlength := congrArg List.length (ht.trans hfirst.eq)
  simp only [List.length_drop, List.length_append] at hlength
  rw [hfirst.stop, hfirst.start]
  omega

theorem take_eq (hfirst : First rules false pos t gap h rest) (ht : text.drop pos = t) :
    text.take h.start = text.take pos ++ gap := by
  rw [hfirst.start]
  exact Text.take_of_drop (ht.trans hfirst.eq)

theorem take_stop_eq (hfirst : First rules false pos t gap h rest) (ht : text.drop pos = t) :
    text.take h.stop = text.take pos ++ (gap ++ h.value) := by
  rw [hfirst.stop, Text.take_of_drop (hfirst.drop_start_eq ht), hfirst.take_eq ht,
    List.append_assoc]

theorem slice_eq (hfirst : First rules false pos t gap h rest) (ht : text.drop pos = t) :
    Text.slice text pos h.start = gap := by
  rw [hfirst.start]
  exact Text.slice_of_drop (ht.trans hfirst.eq)

end First

theorem Rewritten.le_start {pos : Nat} {t out : Text} {is : List Item}
    (h : Rewritten rules text pos t is out) :
    ∀ k ∈ is.flatMap Item.delimiters, pos ≤ k.start := by
  induction h with
  | last => simp
  | @lone pos t gap rest out h is hfirst _ ih =>
    have hstart := hfirst.start
    have hstop := hfirst.stop
    intro k hk
    rcases List.mem_cons.mp hk with rfl | hk
    · omega
    · have := ih k hk
      omega
  | @pair pos t gap rest inner rest' out rule h k is _ hfirst hsecond _ ih =>
    have hstart := hfirst.start
    have hstop := hfirst.stop
    have hstart' := hsecond.start
    have hstop' := hsecond.stop
    intro b hb
    rcases List.mem_cons.mp hb with rfl | hb
    · omega
    rcases List.mem_cons.mp hb with rfl | hb
    · omega
    · have := ih b hb
      omega

/-- An edit begins with a delimiter. -/
theorem Rewritten.le_start_of_mem_edits {pos : Nat} {t out : Text} {is : List Item}
    (h : Rewritten rules text pos t is out) {e : Edit} (he : e ∈ edits text is) :
    pos ≤ e.start := by
  obtain ⟨i, hi, heq⟩ := List.mem_filterMap.mp he
  cases i with
  | lone k => cases heq
  | pair rule k k' =>
    cases heq
    exact h.le_start k (List.mem_flatMap.mpr ⟨_, hi, List.mem_cons_self⟩)

/-- A lone delimiter is copied together with the gap in front of it. -/
theorem splice_of_lone {pos stop : Nat} {t gap rest : Text} {h : Hit Text} {es : List Edit}
    (ht : text.drop pos = t) (hfirst : First rules false pos t gap h rest) (hle : h.stop ≤ stop)
    (hedits : ∀ e ∈ es, h.stop ≤ e.start) :
    Edit.splice text pos stop es = gap ++ (h.value ++ Edit.splice text h.stop stop es) := by
  have heq : text.drop pos = (gap ++ h.value) ++ rest := by
    rw [ht, hfirst.eq, List.append_assoc]
  have hstop : pos + (gap ++ h.value).length = h.stop := by
    rw [hfirst.stop, hfirst.start, List.length_append, Nat.add_assoc]
  rw [← hstop] at hle hedits
  rw [Edit.splice_copy heq hle hedits, hstop, List.append_assoc]

/-- **What each item keeps holds in front of every pair**: of a place of the text, and of what has
    been written up to it. -/
theorem Rewritten.reaches (holds : Nat → Text → Prop)
    (hlone : ∀ {pos t gap rest before} {h : Hit Text}, text.drop pos = t →
      First rules false pos t gap h rest → holds pos before →
      holds h.stop (before ++ (gap ++ h.value)))
    (hpair : ∀ {pos t gap rest inner rest' before} {rule : DelimiterRule} {h k : Hit Text},
      text.drop pos = t → rule ∈ rules → First rules false pos t gap h rest →
      First rules false h.stop rest inner k rest' → holds pos before →
      holds k.stop (before ++ (gap ++ render rule text h.start inner)))
    {pos : Nat} {t out before : Text} {is pre post : List Item} {rule : DelimiterRule}
    {a b : Hit Text} (hrewritten : Rewritten rules text pos t is out) (ht : text.drop pos = t)
    (hbefore : holds pos before) (his : is = pre ++ .pair rule a b :: post) :
    ∃ pos' before' gap rest inner rest', rule ∈ rules ∧ holds pos' before' ∧
      before ++ Edit.splice text pos a.start (edits text pre) = before' ++ gap ∧
      First rules false pos' (text.drop pos') gap a rest ∧
      First rules false a.stop rest inner b rest' := by
  induction hrewritten generalizing pre before with
  | last => simp at his
  | @lone pos t gap rest out h is hfirst hrest ih =>
    cases pre with
    | nil => cases his
    | cons i pre =>
      rw [List.cons_append, List.cons.injEq] at his
      obtain ⟨rfl, rfl⟩ := his
      have hstop : h.stop ≤ a.start := hrest.le_start a (by simp [Item.delimiters])
      have hedits : ∀ e ∈ edits text pre, h.stop ≤ e.start := by
        intro e he
        apply hrest.le_start_of_mem_edits
        rw [edits_append]
        exact List.mem_append_left _ he
      rw [edits_lone, splice_of_lone ht hfirst hstop hedits]
      simpa using ih (hfirst.drop_eq ht) (hlone ht hfirst hbefore) rfl
  | @pair pos t gap rest inner rest' out rule' h k is hrule hfirst hsecond _ ih =>
    cases pre with
    | nil =>
      cases his
      refine ⟨pos, before, gap, rest, inner, rest', hrule, hbefore, ?_, ht ▸ hfirst, hsecond⟩
      rw [edits_nil, Edit.splice, hfirst.slice_eq ht]
    | cons i pre =>
      rw [List.cons_append, List.cons.injEq] at his
      obtain ⟨rfl, rfl⟩ := his
      have hdrop := hfirst.drop_eq ht
      rw [edits_pair, Edit.splice, hfirst.slice_eq ht, hsecond.slice_eq hdrop]
      simpa using ih (hsecond.drop_eq hdrop) (hpair ht hrule hfirst hsecond hbefore) rfl

/-- What is made of a lone delimiter, and of what follows it. -/
theorem Rewritten.lone_splice {pos : Nat} {t gap rest : Text} {h : Hit Text} {is : List Item}
    (ht : text.drop pos = t) (hpos : pos ≤ text.length)
    (hfirst : First rules false pos t gap h rest)
    (hrest : Rewritten rules text h.stop rest is
      (Edit.splice text h.stop text.length (edits text is))) :
    Rewritten rules text pos t (.lone h :: is)
      (Edit.splice text pos text.length (edits text (.lone h :: is))) := by
  have hedits := fun e => hrest.le_start_of_mem_edits (e := e)
  rw [edits_lone, splice_of_lone ht hfirst (hfirst.stop_le ht hpos) hedits]
  exact .lone hfirst hrest

theorem rewritten_items {pos : Nat} {t : Text} {hs : List (Hit Text)} (ht : text.drop pos = t)
    (hpos : pos ≤ text.length) (hcut : Cut rules false pos t hs) :
    Rewritten rules text pos t (items rules hs)
      (Edit.splice text pos text.length (edits text (items rules hs))) := by
  have hlast : ∀ {pos t}, text.drop pos = t → Cut rules false pos t [] →
      Rewritten rules text pos t [] (Edit.splice text pos text.length (edits text [])) := by
    intro pos t ht hcut
    rw [edits_nil, Edit.splice, Text.slice, List.take_length, ht]
    exact .last (cut_nil_iff.mp hcut)
  fun_induction items rules hs generalizing pos t with
  | case1 => exact hlast ht hcut
  | case2 h =>
    obtain ⟨gap, rest, hfirst, hrest⟩ := hcut.exists_first
    exact .lone_splice ht hpos hfirst (hlast (hfirst.drop_eq ht) hrest)
  | case3 h k hs _ ih =>
    obtain ⟨gap, rest, hfirst, hrest⟩ := hcut.exists_first
    exact .lone_splice ht hpos hfirst (ih (hfirst.drop_eq ht) (hfirst.stop_le ht hpos) hrest)
  | case4 h k hs rule hsome hk ih =>
    obtain ⟨gap, rest, hfirst, hrest⟩ := hcut.exists_first
    obtain ⟨inner, rest', hsecond, hrest'⟩ := hrest.exists_first
    have hdrop := hfirst.drop_eq ht
    have hle := hsecond.stop_le hdrop (hfirst.stop_le ht hpos)
    rw [edits_pair, Edit.splice, hfirst.slice_eq ht, hsecond.slice_eq hdrop, List.append_assoc]
    exact .pair (ruleOf?_eq_some hsome).1 hfirst hsecond (ih (hsecond.drop_eq hdrop) hle hrest')
  | case5 h k hs rule _ _ ih =>
    obtain ⟨gap, rest, hfirst, hrest⟩ := hcut.exists_first
    exact .lone_splice ht hpos hfirst (ih (hfirst.drop_eq ht) (hfirst.stop_le ht hpos) hrest)

/-- **What a run writes,** gap by gap. -/
theorem rewritten_output (hrules : Dialect rules) (text : Text) :
    Rewritten rules text 0 text (found rules text) (output rules text) :=
  rewritten_items rfl (Nat.zero_le _) (cut_delimiters hrules.formed text)

/-! ### The delimiters of what is written -/

/-- In front of a delimiter no other one lies across the border. -/
theorem Dialect.across (hrules : Dialect rules) {d t : Text} (hd : d ∈ marks rules)
    (x y : Text) (hx : x ≠ []) (hy : y ≠ []) (hxy : x ++ y ∈ marks rules)
    (hhead : y.head? = (d ++ t).head?) : ∃ m ∈ marks rules, m <+: x := by
  obtain ⟨b, x, rfl⟩ := List.exists_cons_of_ne_nil hx
  obtain ⟨c, y, rfl⟩ := List.exists_cons_of_ne_nil hy
  have hc : c = '\\' ∨ c = '$' := by
    obtain ⟨e, d, rfl⟩ := List.exists_cons_of_ne_nil (hrules.formed d hd).ne_nil
    cases hhead
    exact (hrules.formed _ hd).head rfl
  rcases hrules.formed _ hxy with ⟨-, -, hname⟩ | ⟨-, hall⟩
  · have hmem : c ∈ ((b :: x) ++ c :: y).tail := by simp
    rcases hc with rfl | rfl
    · exact absurd rfl (hname _ hmem).1
    · exact absurd rfl (hname _ hmem).2
  · have hb : b = '$' := hall b (by simp)
    refine ⟨['$'], hrules.dollar _ hxy (by rw [hb]; rfl), ?_⟩
    rw [hb]
    exact List.prefix_append ['$'] x

/-- Where what is written begins with a dollar, a dollar stood, or a delimiter. -/
theorem Rewritten.head {pos : Nat} {t out : Text} {is : List Item}
    (h : Rewritten rules text pos t is out) (hout : out.head? = some '$') :
    t.head? = some '$' ∨ ∃ m ∈ marks rules, m <+: t := by
  -- either a gap is copied first, or a delimiter stands at the head of the text
  have hgap : ∀ {gap rest more : Text} {h : Hit Text}, First rules false pos t gap h rest →
      (gap ++ more).head? = some '$' → t.head? = some '$' ∨ ∃ m ∈ marks rules, m <+: t := by
    intro gap rest more h hfirst hhead
    rw [hfirst.eq]
    cases gap with
    | nil => exact .inr ⟨h.value, hfirst.mem, List.prefix_append _ _⟩
    | cons c gap => exact .inl hhead
  cases h with
  | last => exact .inl hout
  | lone hfirst => exact hgap hfirst hout
  | pair _ hfirst => exact hgap hfirst hout

/-- What is made of a text is cut by delimiters like the lone ones. -/
theorem Rewritten.cut (hrules : Dialect rules) {pos : Nat} {t out : Text} {is : List Item}
    (h : Rewritten rules text pos t is out) (pos' : Nat) :
    ∃ ks, Cut rules false pos' out ks ∧
      ks.map Hit.value = (Delimiter.lone is).map Hit.value := by
  induction h generalizing pos' with
  | last hbare => exact ⟨[], cut_nil_iff.mpr hbare, rfl⟩
  | @lone pos t gap rest out h is hfirst hrest ih =>
    obtain ⟨ks, hks, hvalues⟩ := ih (pos' + gap.length + h.value.length)
    have hread := hrules.reads h.value hfirst.mem rest out hfirst.read hrest.head
    refine ⟨⟨pos' + gap.length, pos' + gap.length + h.value.length, h.value⟩ :: ks, ?_, ?_⟩
    · refine Cut.append hfirst.bare (hrules.across hfirst.mem) ?_
      rw [hfirst.unescaped]
      exact .mark hfirst.mem hread hks
    · simp [hvalues]
  | @pair pos t gap rest inner rest' out rule h k is hrule hfirst hsecond _ ih =>
    obtain ⟨ks, hks, hvalues⟩ :=
      ih (pos' + gap.length + (render rule text h.start inner).length)
    exact ⟨ks, hrules.cut_render hrule text h.start hsecond.bare hfirst.bare hks, hvalues⟩

/-- **A run leaves the lone delimiters, and no others.** -/
theorem values_delimiters_output (hrules : Dialect rules) (text : Text) :
    (delimiters rules (output rules text)).map Hit.value =
      (lone (found rules text)).map Hit.value := by
  obtain ⟨ks, hks, hvalues⟩ := (rewritten_output hrules text).cut hrules 0
  rw [hks.delimiters_eq hrules.formed, hvalues]

end Delimiter

end TexMark
