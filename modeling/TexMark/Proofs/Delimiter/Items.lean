/-
  TexMark/Proofs/Delimiter/Items.lean
  ===================================
  **Pairs and lone delimiters.**  The pairing goes through the delimiters of a text with an
  opener in its hands.  What it comes to can be said without that state: a delimiter makes a
  pair with the next one, or it stands alone (`items`).

    * `accounts_items` — each delimiter is in one item, the pairs are of the rules, and no
      opener that stands alone is followed by its own closer;
    * `normalize_eq` — the lone delimiters are what is reported, and the pairs what is replaced.
-/
import TexMark.Proofs.Passes

namespace TexMark.Delimiter

open Noted

/-- What becomes of the delimiters: two make a pair, or one stands alone. -/
inductive Item where
  | pair (rule : DelimiterRule) (opener closer : Hit Text)
  | lone (delimiter : Hit Text)

namespace Item

def delimiters : Item → List (Hit Text)
  | pair _ opener closer => [opener, closer]
  | lone h => [h]

def lone? : Item → Option (Hit Text)
  | pair .. => none
  | lone h => some h

/-- The edit that writes the formula of a pair in its place. -/
def edit? (text : Text) : Item → Option Edit
  | pair rule opener closer => some ⟨opener.start, closer.stop,
      render rule text opener.start (Text.slice text opener.stop closer.start)⟩
  | lone _ => none

end Item

/-- The items that some delimiters make up, from left to right. -/
def items (rules : List DelimiterRule) : List (Hit Text) → List Item
  | [] => []
  | [h] => [.lone h]
  | h :: k :: hs =>
    match ruleOf? rules h.value with
    | none => .lone h :: items rules (k :: hs)
    | some rule =>
      if k.value = rule.closer then .pair rule h k :: items rules hs
      else .lone h :: items rules (k :: hs)

def found (rules : List DelimiterRule) (text : Text) : List Item :=
  items rules (delimiters rules text)

def lone (is : List Item) : List (Hit Text) := is.filterMap Item.lone?

def edits (text : Text) (is : List Item) : List Edit := is.filterMap (Item.edit? text)

/-- What is said of a lone delimiter, in front of the next one if there is one. -/
def complaint (rules : List DelimiterRule) (h : Hit Text) (next? : Option (Hit Text)) : Text :=
  match ruleOf? rules h.value with
  | none => "Unmatched closing delimiter " ++ h.value
  | some rule => match next? with
    | none => "Unterminated " ++ rule.opener ++ " (missing " ++ rule.closer ++ ")"
    | some k => rule.opener ++ " interrupted by " ++ k.value ++ " before " ++ rule.closer

def reports (rules : List DelimiterRule) : List Item → List Diagnostic
  | [] => []
  | .pair .. :: is => reports rules is
  | .lone h :: is =>
    ⟨.delimiterMismatch, complaint rules h (is.flatMap Item.delimiters).head?, h.start⟩ ::
      reports rules is

variable {rules : List DelimiterRule}

@[simp] theorem lone_nil : lone [] = [] := rfl

@[simp] theorem lone_pair (rule : DelimiterRule) (h k : Hit Text) (is : List Item) :
    lone (.pair rule h k :: is) = lone is := rfl

@[simp] theorem lone_lone (h : Hit Text) (is : List Item) : lone (.lone h :: is) = h :: lone is :=
  rfl

@[simp] theorem edits_nil (text : Text) : edits text [] = [] := rfl

@[simp] theorem edits_pair (text : Text) (rule : DelimiterRule) (h k : Hit Text)
    (is : List Item) : edits text (.pair rule h k :: is) =
      ⟨h.start, k.stop, render rule text h.start (Text.slice text h.stop k.start)⟩ ::
        edits text is := rfl

@[simp] theorem edits_lone (text : Text) (h : Hit Text) (is : List Item) :
    edits text (.lone h :: is) = edits text is := rfl

theorem edits_append (text : Text) (is js : List Item) :
    edits text (is ++ js) = edits text is ++ edits text js := List.filterMap_append

theorem ruleOf?_eq_some {opener : Text} {rule : DelimiterRule}
    (h : ruleOf? rules opener = some rule) : rule ∈ rules ∧ opener = rule.opener := by
  constructor
  · exact List.mem_reverse.mp (List.mem_of_find?_eq_some h)
  · have hopener := List.find?_some h
    exact (beq_iff_eq.mp hopener).symm

/-! ### Every delimiter is in one item -/

theorem delimiters_items (hs : List (Hit Text)) :
    (items rules hs).flatMap Item.delimiters = hs := by
  fun_induction items rules hs with
  | case1 => rfl
  | case2 h => rfl
  | case3 h k hs _ ih => simp [Item.delimiters, ih]
  | case4 h k hs rule _ _ ih => simp [Item.delimiters, ih]
  | case5 h k hs rule _ _ ih => simp [Item.delimiters, ih]

theorem lone_sublist (is : List Item) : (lone is).Sublist (is.flatMap Item.delimiters) := by
  induction is with
  | nil => exact List.Sublist.refl _
  | cons i is ih =>
    cases i with
    | pair rule h k => exact (ih.cons k).cons h
    | lone h => exact ih.cons_cons h

/-- A pair takes two delimiters and a lone one is one. -/
theorem length_lone_add (text : Text) (is : List Item) :
    (lone is).length + 2 * (edits text is).length = (is.flatMap Item.delimiters).length := by
  induction is with
  | nil => rfl
  | cons i is ih =>
    rw [List.flatMap_cons, List.length_append, ← ih]
    cases i with
    | pair rule h k =>
      simp only [Item.delimiters, lone_pair, edits_pair, List.length_cons, List.length_nil]
      omega
    | lone h =>
      simp only [Item.delimiters, lone_lone, edits_lone, List.length_cons, List.length_nil]
      omega

/-- Some items **account for** some delimiters. -/
structure Accounts (rules : List DelimiterRule) (hs : List (Hit Text)) (is : List Item) :
    Prop where
  all : is.flatMap Item.delimiters = hs
  paired : ∀ rule h k, .pair rule h k ∈ is →
    rule ∈ rules ∧ h.value = rule.opener ∧ k.value = rule.closer
  /-- The delimiter behind a lone opener is not its closer. -/
  alone : ∀ h rest k more, (.lone h :: rest) <:+ is → rest.flatMap Item.delimiters = k :: more →
    ∀ rule ∈ rules, h.value = rule.opener → k.value ≠ rule.closer

theorem paired_items (hs : List (Hit Text)) {rule : DelimiterRule} {h k : Hit Text}
    (hmem : .pair rule h k ∈ items rules hs) :
    rule ∈ rules ∧ h.value = rule.opener ∧ k.value = rule.closer := by
  fun_induction items rules hs with
  | case1 => cases hmem
  | case2 => simp at hmem
  | case3 _ _ _ _ ih => exact ih (by simpa using hmem)
  | case4 h' k' hs rule' hrule hcloser ih =>
    rcases List.mem_cons.mp hmem with heq | hmem
    · cases heq
      exact ⟨(ruleOf?_eq_some hrule).1, (ruleOf?_eq_some hrule).2, hcloser⟩
    · exact ih hmem
  | case5 _ _ _ _ _ _ ih => exact ih (by simpa using hmem)

/-- Openers that belong to one rule each are never left alone in front of their closer. -/
theorem accounts_items (hrules : ∀ rule ∈ rules, ruleOf? rules rule.opener = some rule)
    (hs : List (Hit Text)) : Accounts rules hs (items rules hs) where
  all := delimiters_items hs
  paired := fun _ _ _ => paired_items hs
  alone := by
    intro h rest k more hsuffix hnext rule hrule hopener hcloser
    fun_induction items rules hs with
    | case1 => simp at hsuffix
    | case2 h' =>
      rcases List.suffix_cons_iff.mp hsuffix with heq | hsuffix
      · cases heq
        cases hnext
      · simp at hsuffix
    | case3 h' k' hs hnone ih =>
      rcases List.suffix_cons_iff.mp hsuffix with heq | hsuffix
      · cases heq
        rw [hopener, hrules rule hrule] at hnone
        cases hnone
      · exact ih hsuffix
    | case4 h' k' hs rule' hsome hk ih =>
      rcases List.suffix_cons_iff.mp hsuffix with heq | hsuffix
      · cases heq
      · exact ih hsuffix
    | case5 h' k' hs rule' hsome hk ih =>
      rcases List.suffix_cons_iff.mp hsuffix with heq | hsuffix
      · cases heq
        rw [delimiters_items] at hnext
        cases hnext
        rw [hopener, hrules rule hrule] at hsome
        cases hsome
        exact hk hcloser
      · exact ih hsuffix

/-! ### What is reported and replaced -/

/-- The reports stand at the lone delimiters. -/
theorem map_reports (is : List Item) : (reports rules is).map (fun d => (d.kind, d.position)) =
    (lone is).map fun h => (.delimiterMismatch, (h.start : Int)) := by
  induction is with
  | nil => rfl
  | cons i is ih =>
    cases i with
    | pair rule h k => simpa [reports] using ih
    | lone h => simpa [reports] using ih

theorem take_of_none {h : Hit Text} (hrule : ruleOf? rules h.value = none) (done : List Edit)
    (next? : Option (Hit Text)) : take rules done h =
      ⟨[⟨.delimiterMismatch, complaint rules h next?, h.start⟩], .ok ⟨none, done⟩⟩ := by
  simp only [take, complaint, hrule]
  rfl

theorem take_of_some {h : Hit Text} {rule : DelimiterRule}
    (hrule : ruleOf? rules h.value = some rule) (done : List Edit) :
    take rules done h = ⟨[], .ok ⟨some ⟨rule, h.start, h.stop⟩, done⟩⟩ := by
  simp only [take, hrule]
  rfl

theorem finish_of_some {h : Hit Text} {rule : DelimiterRule}
    (hrule : ruleOf? rules h.value = some rule) (done : List Edit) :
    finish ⟨some ⟨rule, h.start, h.stop⟩, done⟩ =
      ⟨[⟨.delimiterMismatch, complaint rules h none, h.start⟩], .ok done⟩ := by
  simp only [finish, complaint, hrule]
  rfl

/-- The pairing from between two items on: no opener waits there. -/
theorem foldlM_pairUp (text : Text) (hs : List (Hit Text)) (done : List Edit) :
    (hs.foldlM (pairUp rules text) ⟨none, done⟩ >>= finish) =
      ⟨reports rules (items rules hs), .ok (done ++ edits text (items rules hs))⟩ := by
  have hfirst : ∀ h, pairUp rules text ⟨none, done⟩ h = take rules done h := fun _ => rfl
  fun_induction items rules hs generalizing done with
  | case1 => simp [finish, reports]; rfl
  | case2 h =>
    rw [List.foldlM_cons, bind_assoc, hfirst]
    cases hrule : ruleOf? rules h.value with
    | none =>
      rw [take_of_none hrule done none, bind_of_ok rfl]
      simp [finish, reports]
    | some rule =>
      rw [take_of_some hrule, bind_of_ok rfl, List.foldlM_nil, pure_bind, finish_of_some hrule]
      simp [reports]
  | case3 h k hs hnone ih =>
    rw [List.foldlM_cons, bind_assoc, hfirst, take_of_none hnone done (some k), bind_of_ok rfl,
      ih done fun _ => rfl]
    simp [reports, delimiters_items]
  | case4 h k hs rule hsome hk ih =>
    rw [List.foldlM_cons, bind_assoc, hfirst, take_of_some hsome, bind_of_ok rfl,
      List.foldlM_cons, bind_assoc]
    have hpair : pairUp rules text ⟨some ⟨rule, h.start, h.stop⟩, done⟩ k = pure ⟨none, done ++
        [⟨h.start, k.stop, render rule text h.start (Text.slice text h.stop k.start)⟩]⟩ := by
      simp only [pairUp, if_pos hk]
    rw [hpair, pure_bind, ih _ fun _ => rfl]
    simp [reports]
  | case5 h k hs rule hsome hk ih =>
    -- the next delimiter is taken as if the opener had not been there
    have hinterrupted : ∀ more, (k :: more).foldlM (pairUp rules text)
        ⟨some ⟨rule, h.start, h.stop⟩, done⟩ = (do
          Noted.report .delimiterMismatch (complaint rules h (some k)) h.start
          (k :: more).foldlM (pairUp rules text) ⟨none, done⟩) := by
      intro more
      simp only [List.foldlM_cons, pairUp, if_neg hk, bind_assoc, complaint, hsome]
    rw [List.foldlM_cons, bind_assoc, hfirst, take_of_some hsome, bind_of_ok rfl, hinterrupted,
      bind_assoc, ih done fun _ => rfl]
    simp [reports, delimiters_items, bind_of_ok (result_report _ _ _)]

theorem pairs_eq (text : Text) : pairs rules text =
    ⟨reports rules (found rules text), .ok (edits text (found rules text))⟩ :=
  foldlM_pairUp text (delimiters rules text) []

/-- The edits of items that lie behind each other in a window are in order there. -/
theorem ordered_edits (text : Text) {start stop : Nat} (hs : List (Hit Text))
    (hinside : ∀ h ∈ hs, start ≤ h.start ∧ h.start < h.stop ∧ h.stop ≤ stop)
    (hapart : hs.Pairwise fun h k => h.stop ≤ k.start) :
    Edit.Ordered start stop (edits text (items rules hs)) := by
  fun_induction items rules hs generalizing start with
  | case1 => exact .nil
  | case2 => exact .nil
  | case3 h k hs _ ih =>
    exact ih (fun x hx => hinside x (List.mem_cons_of_mem h hx)) hapart.of_cons
  | case4 h k hs rule _ _ ih =>
    obtain ⟨hstart, hlt, -⟩ := hinside h List.mem_cons_self
    obtain ⟨hkstart, hklt, hkstop⟩ := hinside k (by simp)
    have hhk : h.stop ≤ k.start := (List.pairwise_cons.mp hapart).1 k List.mem_cons_self
    have hrest := (List.pairwise_cons.mp hapart.of_cons).1
    have hmore : Edit.Ordered k.stop stop (edits text (items rules hs)) := by
      refine ih (fun x hx => ?_) hapart.of_cons.of_cons
      exact ⟨hrest x hx, (hinside x (by simp [hx])).2⟩
    have htaken : h.start < k.stop := by omega
    have hpair : Edit.Ordered start k.stop
        [⟨h.start, k.stop, render rule text h.start (Text.slice text h.stop k.start)⟩] :=
      .singleton hstart htaken (Nat.le_refl _)
    exact hpair.append hmore (Nat.le_refl _) (by omega) hkstop
  | case5 h k hs rule _ _ ih =>
    exact ih (fun x hx => hinside x (List.mem_cons_of_mem h hx)) hapart.of_cons

theorem pairwise_delimiters (text : Text) :
    (delimiters rules text).Pairwise fun h k => h.stop ≤ k.start ∧ h.start < k.start :=
  (Scan.pairwise_hits (token (tokens rules)) text).filter _

theorem ordered_found (hrules : Written rules) (text : Text) :
    Edit.Ordered 0 text.length (edits text (found rules text)) := by
  refine ordered_edits text (delimiters rules text) (fun h hmem => ?_)
    ((pairwise_delimiters text).imp And.left)
  exact ⟨Nat.zero_le _, lt_stop_of_mem_delimiters hrules hmem⟩

/-- **What a run says and writes.** -/
theorem normalize_eq (hrules : Written rules) (text : Text) : normalize rules text =
    ⟨reports rules (found rules text),
      .ok (Edit.splice text 0 text.length (edits text (found rules text)))⟩ := by
  have hordered := ordered_found hrules text
  rw [normalize, pairs_eq, bind_of_ok rfl]
  apply Noted.ext
  · simp [edited, editedWithin]
  · change (edited text _).result = _
    rw [result_edited hordered.fit, hordered.inOrder_eq]

/-- **The edits of the pairs fit.** -/
theorem edits_pairs (hrules : Written rules) (text : Text) :
    ∃ edits, (pairs rules text).result = .ok edits ∧ Edit.Fit 0 text.length edits := by
  refine ⟨edits text (found rules text), ?_, (ordered_found hrules text).fit⟩
  rw [pairs_eq]

theorem exists_result_normalize (hrules : Written rules) {text : Text} :
    ∃ t, (normalize rules text).result = .ok t := by
  rw [normalize_eq hrules]
  exact ⟨_, rfl⟩

end TexMark.Delimiter
