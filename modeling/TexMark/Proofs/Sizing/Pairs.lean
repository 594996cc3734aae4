/-
  TexMark/Proofs/Sizing/Pairs.lean
  ================================
  **Sizes in pairs.**  `\left` and `\right` are matched with a stack of openings.  Two of them
  make a pair if what stands between them is balanced (`Matched`), which says nothing of a stack:
  `mem_pairsFrom_iff` states that the stack finds these pairs and no others.  Of the pairs whose
  two delimiters are plain the commands go, and all others stay.

    * `Balanced.of_filter` — taking out whole pairs leaves balanced sides balanced;
    * `stripped_of_stripPairs` — what becomes of a text, and of which commands this holds;
    * `stray_right_left` — an escaped command that is read first hides a command behind it.
-/
import TexMark.Proofs.Passes
import TexMark.Proofs.Scans
import Mathlib.Data.List.Nodup

namespace TexMark.Sizing

/-! ### Balanced sides -/

/-- Sides that close each other like brackets. -/
inductive Balanced : List Side → Prop
  | nil : Balanced []
  | pair {u v : List Side} : Balanced u → Balanced v → Balanced (.left :: (u ++ .right :: v))

theorem Balanced.append {u v : List Side} (hu : Balanced u) (hv : Balanced v) :
    Balanced (u ++ v) := by
  induction hu with
  | nil => exact hv
  | pair hu _ _ ih =>
    rw [List.cons_append, List.append_assoc, List.cons_append]
    exact .pair hu ih

theorem Balanced.count_eq {u : List Side} (h : Balanced u) : u.count .left = u.count .right := by
  induction h with
  | nil => rfl
  | pair _ _ ihu ihv => simp [ihu, ihv, Nat.add_assoc]

/-- In front of every place as many sides have been opened as closed, or more. -/
theorem Balanced.count_le {w u v : List Side} (h : Balanced w) (hw : w = u ++ v) :
    u.count .right ≤ u.count .left := by
  induction h generalizing u v with
  | nil => simp [List.append_eq_nil_iff.mp hw.symm]
  | @pair x y hx _ ihx ihy =>
    cases u with
    | nil => exact Nat.le_refl 0
    | cons s u =>
      obtain ⟨rfl, hrest⟩ := List.cons.inj hw
      have hcount := hx.count_eq
      rcases List.append_eq_append_iff.mp hrest with ⟨z, rfl, hz⟩ | ⟨z, rfl, -⟩
      · cases z with
        | nil => simp [hcount]
        | cons s z =>
          obtain ⟨rfl, rfl⟩ := List.cons.inj hz
          have := ihy rfl
          simp only [List.count_cons, List.count_append]
          simp
          omega
      · have := ihx rfl
        simp only [List.count_cons]
        simp
        omega

/-- Behind balanced sides one that closes leaves too many closed. -/
theorem Balanced.not_closed {u v : List Side} (hu : Balanced u) :
    ¬ Balanced (u ++ .right :: v) := by
  intro h
  have hle := h.count_le (List.append_cons u .right v)
  have hcount := hu.count_eq
  simp only [List.count_append, List.count_singleton] at hle
  simp at hle
  omega

/-- In front of balanced sides one that opens is never closed. -/
theorem Balanced.not_opened {u v : List Side} (hv : Balanced v) :
    ¬ Balanced (u ++ .left :: v) := by
  intro h
  have hle := h.count_le rfl
  have hcount := hv.count_eq
  have hall := h.count_eq
  simp only [List.count_append, List.count_cons] at hall
  simp at hall
  omega

abbrev sides (ts : List (Hit Sized)) : List Side := ts.map fun h => h.value.side

/-! ### Matched commands -/

/-- Two commands **match** if they open and close, and those between them are balanced. -/
def Matched (ts : List (Hit Sized)) (h k : Hit Sized) : Prop :=
  ∃ pre mid post, ts = pre ++ h :: (mid ++ k :: post) ∧
    h.value.side = .left ∧ k.value.side = .right ∧ Balanced (sides mid)

/-- The pairs in the order in which they are closed; some openings wait in front. -/
def pairsFrom (waiting : List (Hit Sized)) : List (Hit Sized) → List (Hit Sized × Hit Sized)
  | [] => []
  | h :: ts =>
    match h.value.side, waiting with
    | .left, waiting => pairsFrom (h :: waiting) ts
    | .right, [] => pairsFrom [] ts
    | .right, opening :: waiting => (opening, h) :: pairsFrom waiting ts

/-- The openings that still wait behind some commands. -/
def waitingBehind (waiting : List (Hit Sized)) : List (Hit Sized) → List (Hit Sized)
  | [] => waiting
  | h :: ts =>
    match h.value.side, waiting with
    | .left, waiting => waitingBehind (h :: waiting) ts
    | .right, [] => waitingBehind [] ts
    | .right, _ :: waiting => waitingBehind waiting ts

theorem waitingBehind_append (waiting us ts : List (Hit Sized)) :
    waitingBehind waiting (us ++ ts) = waitingBehind (waitingBehind waiting us) ts := by
  fun_induction waitingBehind waiting us with
  | case1 => rfl
  | case2 h us waiting hside ih => simpa only [List.cons_append, waitingBehind, hside] using ih
  | case3 h us hside ih => simpa only [List.cons_append, waitingBehind, hside] using ih
  | case4 h us opening waiting hside ih =>
    simpa only [List.cons_append, waitingBehind, hside] using ih

theorem pairsFrom_append (waiting us ts : List (Hit Sized)) :
    pairsFrom waiting (us ++ ts) =
      pairsFrom waiting us ++ pairsFrom (waitingBehind waiting us) ts := by
  fun_induction pairsFrom waiting us with
  | case1 => rfl
  | case2 h us waiting hside ih =>
    simpa only [List.cons_append, pairsFrom, waitingBehind, hside] using ih
  | case3 h us hside ih =>
    simpa only [List.cons_append, pairsFrom, waitingBehind, hside] using ih
  | case4 h us opening waiting hside ih =>
    simp only [List.cons_append, pairsFrom, waitingBehind, hside, ih]

/-- **Balanced commands leave the stack as it was.** -/
theorem waitingBehind_of_balanced {us : List (Hit Sized)} (hus : Balanced (sides us))
    (waiting : List (Hit Sized)) : waitingBehind waiting us = waiting := by
  generalize hall : sides us = all at hus
  induction hus generalizing us waiting with
  | nil =>
    rw [List.map_eq_nil_iff.mp hall]
    rfl
  | @pair x y _ _ ihx ihy =>
    obtain ⟨h, us', rfl, hopen, hrest⟩ := List.map_eq_cons_iff.mp hall
    obtain ⟨mid, rest, rfl, hmid, hrest⟩ := List.map_eq_append_iff.mp hrest
    obtain ⟨k, post, rfl, hclose, hpost⟩ := List.map_eq_cons_iff.mp hrest
    simp only [waitingBehind, hopen, waitingBehind_append, ihx _ hmid, hclose]
    exact ihy _ hpost

/-- Each opening that waits stands in what has been read, and what is behind it is balanced up to
    the next one. -/
inductive Waits : List (Hit Sized) → List (Hit Sized) → Prop
  | nil {read : List (Hit Sized)} : Waits read []
  | cons {read mid waiting : List (Hit Sized)} {h : Hit Sized} : Waits read waiting →
    h.value.side = .left → Balanced (sides mid) → Waits (read ++ h :: mid) (h :: waiting)

theorem Waits.append {read waiting us : List (Hit Sized)} (h : Waits read waiting)
    (hus : Balanced (sides us)) : Waits (read ++ us) waiting := by
  cases h with
  | nil => exact .nil
  | cons hrest hside hmid =>
    rw [List.append_assoc, List.cons_append]
    refine .cons hrest hside ?_
    rw [sides, List.map_append]
    exact hmid.append hus

/-- What is matched with a stack is matched. -/
theorem matched_of_mem_pairsFrom {h k : Hit Sized} {read waiting ts : List (Hit Sized)}
    (hwaits : Waits read waiting) (hmem : (h, k) ∈ pairsFrom waiting ts) :
    Matched (read ++ ts) h k := by
  fun_induction pairsFrom waiting ts generalizing read with
  | case1 => cases hmem
  | case2 t ts waiting hside ih =>
    have hnext : Waits (read ++ [t]) (t :: waiting) := .cons hwaits hside .nil
    simpa using ih hnext hmem
  | case3 t ts hside ih =>
    have hnext : Waits (read ++ [t]) [] := .nil
    simpa using ih hnext hmem
  | case4 t ts opening waiting hside ih =>
    cases hwaits with
    | @cons read mid _ _ hrest hopen hmid =>
      rcases List.mem_cons.mp hmem with hpair | hmem
      · cases hpair
        exact ⟨read, mid, ts, by simp, hopen, hside, hmid⟩
      · -- the pair is closed, so that what waited in front of it still does
        have hclosed : Balanced (sides (opening :: (mid ++ [t]))) := by
          simpa [hopen, hside] using hmid.pair .nil
        simpa using ih (hrest.append hclosed) hmem

/-- **The stack finds the pairs that match.** -/
theorem mem_pairsFrom_iff {h k : Hit Sized} {ts : List (Hit Sized)} :
    (h, k) ∈ pairsFrom [] ts ↔ Matched ts h k := by
  constructor
  · have hnone : Waits [] [] := .nil
    exact fun hmem => matched_of_mem_pairsFrom hnone hmem
  · rintro ⟨pre, mid, post, rfl, hopen, hclose, hmid⟩
    simp [pairsFrom_append, pairsFrom, hopen, waitingBehind_of_balanced hmid, hclose]

/-! ### A command matches one other at most -/

section

variable {ts : List (Hit Sized)} {h h' k k' : Hit Sized}

theorem Matched.sides_eq (hmatch : Matched ts h k) :
    h.value.side = .left ∧ k.value.side = .right := by
  obtain ⟨-, -, -, -, hopen, hclose, -⟩ := hmatch
  exact ⟨hopen, hclose⟩

theorem Matched.mem (hmatch : Matched ts h k) : h ∈ ts ∧ k ∈ ts := by
  obtain ⟨pre, mid, post, rfl, -⟩ := hmatch
  simp

theorem eq_of_nodup {pre post pre' post' : List (Hit Sized)} (hnodup : (pre ++ h :: post).Nodup)
    (heq : pre ++ h :: post = pre' ++ h :: post') : pre = pre' ∧ post = post' := by
  obtain ⟨hnot, -⟩ := List.nodup_cons.mp (List.nodup_middle.mp hnodup)
  obtain ⟨hpre, hpost⟩ := not_or.mp (List.mem_append.not.mp hnot)
  obtain ⟨rfl, -, rfl⟩ := (List.append_cons_inj_of_notMem hpre hpost).mp heq
  exact ⟨rfl, rfl⟩

/-- Two balanced stretches that begin at one place end with one closing. -/
theorem closing_eq {mid mid' post post' : List (Hit Sized)} (hmid : Balanced (sides mid))
    (hmid' : Balanced (sides mid')) (hk : k.value.side = .right) (hk' : k'.value.side = .right)
    (heq : mid ++ k :: post = mid' ++ k' :: post') : k = k' := by
  rcases List.append_eq_append_iff.mp heq with ⟨x, rfl, hx⟩ | ⟨x, rfl, hx⟩
  · cases x with
    | nil => exact (List.cons.inj hx).1
    | cons t x =>
      obtain ⟨rfl, -⟩ := List.cons.inj hx
      rw [sides, List.map_append, List.map_cons, hk] at hmid'
      exact absurd hmid' hmid.not_closed
  · cases x with
    | nil => exact (List.cons.inj hx).1.symm
    | cons t x =>
      obtain ⟨rfl, -⟩ := List.cons.inj hx
      rw [sides, List.map_append, List.map_cons, hk'] at hmid
      exact absurd hmid hmid'.not_closed

/-- Two balanced stretches that end at one place begin with one opening. -/
theorem opening_eq {mid mid' pre pre' : List (Hit Sized)} (hmid : Balanced (sides mid))
    (hmid' : Balanced (sides mid')) (hh : h.value.side = .left) (hh' : h'.value.side = .left)
    (heq : pre ++ h :: mid = pre' ++ h' :: mid') : h = h' := by
  rcases List.append_eq_append_iff.mp heq with ⟨x, rfl, hx⟩ | ⟨x, rfl, hx⟩
  · cases x with
    | nil => exact (List.cons.inj hx).1
    | cons t x =>
      rw [List.cons_append, List.cons.injEq] at hx
      rw [hx.2, sides, List.map_append, List.map_cons, hh'] at hmid
      exact absurd hmid hmid'.not_opened
  · cases x with
    | nil => exact (List.cons.inj hx).1.symm
    | cons t x =>
      rw [List.cons_append, List.cons.injEq] at hx
      rw [hx.2, sides, List.map_append, List.map_cons, hh] at hmid'
      exact absurd hmid' hmid.not_opened

theorem Matched.closing_unique (hts : ts.Nodup) (hmatch : Matched ts h k)
    (hmatch' : Matched ts h k') : k = k' := by
  obtain ⟨pre, mid, post, rfl, -, hk, hmid⟩ := hmatch
  obtain ⟨pre', mid', post', heq, -, hk', hmid'⟩ := hmatch'
  obtain ⟨-, hbehind⟩ := eq_of_nodup hts heq
  exact closing_eq hmid hmid' hk hk' hbehind

theorem Matched.opening_unique (hts : ts.Nodup) (hmatch : Matched ts h k)
    (hmatch' : Matched ts h' k) : h = h' := by
  obtain ⟨pre, mid, post, rfl, hh, -, hmid⟩ := hmatch
  obtain ⟨pre', mid', post', heq, hh', -, hmid'⟩ := hmatch'
  rw [List.append_cons, ← List.append_assoc] at hts heq
  rw [List.append_cons pre' h', ← List.append_assoc] at heq
  obtain ⟨hfront, -⟩ := eq_of_nodup hts heq
  rw [← List.append_cons, ← List.append_cons] at hfront
  exact opening_eq hmid hmid' hh hh' hfront

end

/-! ### What goes -/

/-- Can both delimiters of a pair be written without a size? -/
def bothPlain (h k : Hit Sized) : Bool := isPlain h.value.delimiter && isPlain k.value.delimiter

/-- A command **goes** if it is one side of a pair of plain delimiters. -/
def Goes (ts : List (Hit Sized)) (h : Hit Sized) : Prop :=
  ∃ k, (Matched ts h k ∧ bothPlain h k) ∨ (Matched ts k h ∧ bothPlain k h)

/-- The two sides of the pairs that go. -/
def strippedPairs (ts : List (Hit Sized)) : List (Hit Sized) :=
  ((pairsFrom [] ts).filter fun p => bothPlain p.1 p.2).flatMap fun p => [p.1, p.2]

theorem mem_strippedPairs_iff {ts : List (Hit Sized)} {h : Hit Sized} :
    h ∈ strippedPairs ts ↔ Goes ts h := by
  simp only [strippedPairs, List.mem_flatMap, List.mem_filter, List.mem_cons,
    List.not_mem_nil, or_false, Prod.exists, mem_pairsFrom_iff]
  constructor
  · rintro ⟨o, c, ⟨hmatch, hplain⟩, rfl | rfl⟩
    · exact ⟨c, .inl ⟨hmatch, hplain⟩⟩
    · exact ⟨o, .inr ⟨hmatch, hplain⟩⟩
  · rintro ⟨k, ⟨hmatch, hplain⟩ | ⟨hmatch, hplain⟩⟩
    · exact ⟨h, k, ⟨hmatch, hplain⟩, .inl rfl⟩
    · exact ⟨k, h, ⟨hmatch, hplain⟩, .inr rfl⟩

theorem edits_foldl_pairUp (ts : List (Hit Sized)) (s : Pairing) :
    (ts.foldl pairUp s).edits = s.edits ++
      (((pairsFrom s.waiting ts).filter fun p => bothPlain p.1 p.2).flatMap
        fun p => [bare p.1, bare p.2]) := by
  induction ts generalizing s with
  | nil => simp [pairsFrom]
  | cons h ts ih =>
    rw [List.foldl_cons, ih]
    obtain ⟨waiting, edits⟩ := s
    cases hside : h.value.side with
    | left => simp only [pairUp, pairsFrom, hside]
    | right =>
      cases waiting with
      | nil => simp only [pairUp, pairsFrom, hside]
      | cons opening waiting =>
        simp only [pairUp, pairsFrom, hside]
        rw [← bothPlain]
        by_cases hplain : bothPlain opening h = true
        · simp [hplain]
        · simp [hplain]

/-- The pairs that go hold as many openings as closings. -/
theorem count_strippedPairs (ts : List (Hit Sized)) :
    (sides (strippedPairs ts)).count .left = (sides (strippedPairs ts)).count .right := by
  have hpairs : ∀ p ∈ (pairsFrom [] ts).filter (fun p => bothPlain p.1 p.2),
      p.1.value.side = .left ∧ p.2.value.side = .right := by
    intro p hp
    exact (mem_pairsFrom_iff.mp (List.mem_filter.mp hp).1).sides_eq
  rw [strippedPairs]
  generalize (pairsFrom [] ts).filter (fun p => bothPlain p.1 p.2) = ps at hpairs ⊢
  induction ps with
  | nil => rfl
  | cons p ps ih =>
    obtain ⟨⟨hopen, hclose⟩, hpairs⟩ := List.forall_mem_cons.mp hpairs
    have hrest := ih hpairs
    simp [sides, hopen, hclose] at hrest ⊢
    exact hrest

/-- **Taking out whole pairs** leaves balanced commands balanced. -/
theorem Balanced.of_filter {ts : List (Hit Sized)} {gone : Hit Sized → Bool}
    (hpair : ∀ h k, Matched ts h k → gone h = gone k) (hts : Balanced (sides ts)) :
    Balanced (sides (ts.filter fun h => !gone h)) := by
  -- each balanced stretch is taken by itself, for its pairs match in the whole
  have hstretch : ∀ all, Balanced all → ∀ pre us post, ts = pre ++ (us ++ post) →
      sides us = all → Balanced (sides (us.filter fun h => !gone h)) := by
    intro all hall
    induction hall with
    | nil =>
      intro pre us post _ hus
      rw [List.map_eq_nil_iff.mp hus]
      exact .nil
    | @pair x y hx _ ihx ihy =>
      intro pre us post hts hus
      obtain ⟨h, us', rfl, hopen, hrest⟩ := List.map_eq_cons_iff.mp hus
      obtain ⟨mid, rest, rfl, hmid, hrest⟩ := List.map_eq_append_iff.mp hrest
      obtain ⟨k, vs, rfl, hclose, hvs⟩ := List.map_eq_cons_iff.mp hrest
      have hinside := ihx (pre ++ [h]) mid (k :: (vs ++ post)) (by simpa using hts) hmid
      have hbehind := ihy (pre ++ h :: (mid ++ [k])) vs post (by simpa using hts) hvs
      have hmatch : Matched ts h k :=
        ⟨pre, mid, vs ++ post, by simpa using hts, hopen, hclose, by rwa [← hmid] at hx⟩
      have hboth := hpair h k hmatch
      cases hk : gone k with
      | true =>
        rw [hk] at hboth
        simpa [sides, hboth, hk] using hinside.append hbehind
      | false =>
        rw [hk] at hboth
        simpa [sides, hboth, hk, hopen, hclose] using hinside.pair hbehind
  exact hstretch _ hts [] ts [] (by simp) rfl

/-! ### Stripped texts -/

/-- A text is **stripped** of the pairs of some commands. -/
structure Stripped (text : Text) (ts : List (Hit Sized)) (gone : Hit Sized → Bool) (out : Text) :
    Prop where
  gone_iff : ∀ h ∈ ts, gone h = true ↔ Goes ts h
  ordered : Edit.Ordered 0 text.length ((ts.filter gone).map bare)
  /-- Each command that goes leaves its delimiter, and all else stays as it is. -/
  written : out = Edit.splice text 0 text.length ((ts.filter gone).map bare)
  count : (sides (ts.filter gone)).count .left = (sides (ts.filter gone)).count .right
  balanced : Balanced (sides ts) → Balanced (sides (ts.filter fun h => !gone h))

/-- The commands that a scan finds which passes over what is escaped. -/
def counted (text : Text) : List (Hit Sized) := Scan.hits (Scan.unescaped sized) text

/-- Of a pair both sides go, or none. -/
theorem goes_iff_of_matched {ts : List (Hit Sized)} (hts : ts.Nodup) {h k : Hit Sized}
    (hmatch : Matched ts h k) :
    (Goes ts h ↔ bothPlain h k = true) ∧ (Goes ts k ↔ bothPlain h k = true) := by
  obtain ⟨hopen, hclose⟩ := hmatch.sides_eq
  refine ⟨⟨?_, fun hplain => ⟨k, .inl ⟨hmatch, hplain⟩⟩⟩,
    ⟨?_, fun hplain => ⟨h, .inr ⟨hmatch, hplain⟩⟩⟩⟩
  · rintro ⟨k', ⟨hmatch', hplain⟩ | ⟨hmatch', -⟩⟩
    · exact hmatch.closing_unique hts hmatch' ▸ hplain
    · rw [hmatch'.sides_eq.2] at hopen
      cases hopen
  · rintro ⟨h', ⟨hmatch', -⟩ | ⟨hmatch', hplain⟩⟩
    · rw [hmatch'.sides_eq.1] at hclose
      cases hclose
    · exact hmatch.opening_unique hts hmatch' ▸ hplain

theorem pairwise_found (text : Text) :
    (found text).Pairwise fun a b => a.stop ≤ b.start ∧ a.start < b.start :=
  (Scan.pairwise_hits sized text).filter _

theorem nodup_found (text : Text) : (found text).Nodup := by
  refine (pairwise_found text).imp fun hab => ?_
  rintro rfl
  exact Nat.lt_irrefl _ hab.2

theorem edits_found (text : Text) :
    ((found text).foldl pairUp ⟨[], []⟩).edits = (strippedPairs (found text)).map bare := by
  rw [edits_foldl_pairUp, strippedPairs, List.map_flatMap]
  rfl

theorem nodup_strippedPairs (text : Text) : (strippedPairs (found text)).Nodup := by
  have hfit := edits_stripPairs text
  rw [edits_found] at hfit
  refine (List.pairwise_map.mp hfit.apart).imp_of_mem fun ha _ hab => ?_
  rintro rfl
  have := hfit.inside _ (List.mem_map_of_mem ha)
  omega

theorem result_stripPairs (text : Text) : (stripPairs text).result =
    .ok (Edit.splice text 0 text.length
      (Edit.inOrder ((strippedPairs (found text)).map bare))) := by
  rw [← edits_found]
  exact Noted.result_edited (edits_stripPairs text)

/-- The edits of the commands that go, in the order of the text. -/
theorem exists_gone (text : Text) : ∃ gone : Hit Sized → Bool,
    (∀ h, gone h = true ↔ Goes (found text) h) ∧
      (strippedPairs (found text)).Perm ((found text).filter gone) ∧
      Edit.Ordered 0 text.length (((found text).filter gone).map bare) ∧
      (stripPairs text).result =
        .ok (Edit.splice text 0 text.length (((found text).filter gone).map bare)) := by
  classical
  obtain ⟨gone, hgone⟩ : ∃ gone : Hit Sized → Bool, ∀ h, gone h = true ↔ Goes (found text) h :=
    ⟨fun h => decide (Goes (found text) h), fun h => decide_eq_true_iff⟩
  have hfit := edits_stripPairs text
  have hresult := result_stripPairs text
  rw [edits_found] at hfit
  have hperm : (strippedPairs (found text)).Perm ((found text).filter gone) := by
    rw [List.perm_ext_iff_of_nodup (nodup_strippedPairs text) ((nodup_found text).filter _)]
    intro h
    rw [mem_strippedPairs_iff, List.mem_filter, hgone]
    refine ⟨fun hgoes => ⟨?_, hgoes⟩, And.right⟩
    obtain ⟨k, ⟨hmatch, -⟩ | ⟨hmatch, -⟩⟩ := hgoes
    · exact hmatch.mem.1
    · exact hmatch.mem.2
  have hordered : Edit.Ordered 0 text.length (((found text).filter gone).map bare) := by
    refine ⟨?_, List.pairwise_map.mpr (((pairwise_found text).filter _).imp And.left)⟩
    intro e he
    exact hfit.inside e ((hperm.map bare).mem_iff.mpr he)
  rw [hordered.inOrder_of_perm (hperm.map bare)] at hresult
  exact ⟨gone, hgone, hperm, hordered, hresult⟩

/-- **What becomes of pairs of sizes.**  The commands that are matched are those that count and
    are found; these are all that count exactly if none begins inside an escaped one. -/
theorem stripped_of_stripPairs (text : Text) :
    ∃ out gone, (stripPairs text).result = .ok out ∧ Stripped text (found text) gone out ∧
      (found text = counted text ↔
        ∀ h ∈ Scan.hits sized text, Scan.isEscaped text h.start →
          ∀ k ∈ counted text, k.start < h.start ∨ h.stop ≤ k.start) := by
  obtain ⟨gone, hgone, hperm, hordered, hresult⟩ := exists_gone text
  refine ⟨_, gone, hresult, ⟨fun h _ => hgone h, hordered, rfl, ?_, ?_⟩,
    Scan.filter_hits_eq_iff advances_sized text⟩
  · have hcount := count_strippedPairs (found text)
    rwa [(hperm.map _).count_eq, (hperm.map _).count_eq] at hcount
  · refine Balanced.of_filter fun h k hmatch => ?_
    obtain ⟨hh, hk⟩ := goes_iff_of_matched (nodup_found text) hmatch
    rw [Bool.eq_iff_iff, hgone, hgone, hh, hk]

/-- Escaped commands hide commands that count: what is written is not balanced, and the commands
    that count in the text are. -/
theorem stray_right_left :
    (stripPairs "\\left( \\\\left\\right) \\\\right\\left( \\right)").result =
      .ok "( \\\\left\\right) \\\\right\\left( )" ∧
    Balanced (sides (counted "\\left( \\\\left\\right) \\\\right\\left( \\right)")) ∧
    ¬ Balanced (sides (counted "( \\\\left\\right) \\\\right\\left( )")) ∧
    ¬ ∃ gone, Stripped "\\left( \\\\left\\right) \\\\right\\left( \\right)"
      (counted "\\left( \\\\left\\right) \\\\right\\left( \\right)") gone
      "( \\\\left\\right) \\\\right\\left( )" := by
  have hbefore : sides (counted "\\left( \\\\left\\right) \\\\right\\left( \\right)") =
      [.left, .right, .left, .right] := rfl
  have hafter : sides (counted "( \\\\left\\right) \\\\right\\left( )") = [.right, .left] := rfl
  rw [hbefore, hafter]
  refine ⟨?_, .pair .nil (.pair .nil .nil), nofun, ?_⟩
  · have hpairs : strippedPairs (found "\\left( \\\\left\\right) \\\\right\\left( \\right)") =
        [⟨0, 6, ⟨.left, "("⟩⟩, ⟨35, 42, ⟨.right, ")"⟩⟩] := rfl
    rw [result_stripPairs, hpairs, Edit.inOrder, List.mergeSort_of_pairwise (by decide)]
    rfl
  · -- all four commands would go
    rintro ⟨gone, hstripped⟩
    have hcounted : counted "\\left( \\\\left\\right) \\\\right\\left( \\right)" =
        [⟨0, 6, ⟨.left, "("⟩⟩, ⟨13, 20, ⟨.right, ")"⟩⟩, ⟨28, 34, ⟨.left, "("⟩⟩,
          ⟨35, 42, ⟨.right, ")"⟩⟩] := rfl
    rw [hcounted] at hstripped
    obtain ⟨hgone, -, hwritten, -, -⟩ := hstripped
    generalize hts : ([⟨0, 6, ⟨.left, "("⟩⟩, ⟨13, 20, ⟨.right, ")"⟩⟩, ⟨28, 34, ⟨.left, "("⟩⟩,
      ⟨35, 42, ⟨.right, ")"⟩⟩] : List (Hit Sized)) = ts at hgone hwritten
    have hfirst : Matched ts ⟨0, 6, ⟨.left, "("⟩⟩ ⟨13, 20, ⟨.right, ")"⟩⟩ :=
      ⟨[], [], _, hts.symm, rfl, rfl, .nil⟩
    have hsecond : Matched ts ⟨28, 34, ⟨.left, "("⟩⟩ ⟨35, 42, ⟨.right, ")"⟩⟩ :=
      ⟨[_, _], [], _, hts.symm, rfl, rfl, .nil⟩
    have hall : ts.filter gone = ts := by
      rw [List.filter_eq_self]
      intro h hh
      refine (hgone h hh).mpr ?_
      rw [← hts] at hh
      simp only [List.mem_cons, List.not_mem_nil, or_false] at hh
      rcases hh with rfl | rfl | rfl | rfl
      · exact ⟨_, .inl ⟨hfirst, rfl⟩⟩
      · exact ⟨_, .inr ⟨hfirst, rfl⟩⟩
      · exact ⟨_, .inl ⟨hsecond, rfl⟩⟩
      · exact ⟨_, .inr ⟨hsecond, rfl⟩⟩
    rw [hall, ← hts] at hwritten
    revert hwritten
    decide

end TexMark.Sizing
