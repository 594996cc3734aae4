/-
  TexMark/Proofs/Scans.lean
  =========================
  **Scans in steps.**  A scan takes the text from left to right, so that it can be followed over
  the pieces of a text one after the other:

    * `escapedBehind` — what stands before a character decides whether it is escaped, and one
      bit is enough to remember of it;
    * `hitsFrom_of_none`, `hitsFrom_of_some` — one place where nothing, or a construct, begins;
    * `hitsFrom_append` — if no construct crosses the border of two pieces, the hits are those
      of the first piece and then those of the second;
    * `exists_hitsFrom_append` — the same for one scan, whose hits are known;
    * `OneCommand`, `FlatCommand` — recognisers of commands, which never cross into another one, so
      that the hits are all that occurs (`mem_hits_of_read`, `FlatCommand.mem_hits_iff`);
    * `filter_hits_eq_iff` — leaving out the escaped hits of a scan, and scanning for what is not
      escaped;
    * `replaceFrom_copy` — what lies between the constructs that are replaced is copied;
    * `replaceFrom_eq_outsideFrom` — a recogniser that puts nothing in takes its hits out.
-/
import TexMark.Proofs.Edits
import TexMark.Proofs.Readers

namespace TexMark.Scan

/-! ### Escapes along a text -/

/-- Is the character behind a text escaped, if `escaped` says so of its first one? -/
def escapedBehind (escaped : Bool) (t : Text) : Bool :=
  t.foldl (fun e c => c == '\\' && !e) escaped

@[simp] theorem escapedBehind_nil (escaped : Bool) : escapedBehind escaped [] = escaped := rfl

@[simp] theorem escapedBehind_cons (escaped : Bool) (c : Char) (t : Text) :
    escapedBehind escaped (c :: t) = escapedBehind (c == '\\' && !escaped) t := rfl

@[simp] theorem escapedBehind_append (escaped : Bool) (s t : Text) :
    escapedBehind escaped (s ++ t) = escapedBehind (escapedBehind escaped s) t :=
  List.foldl_append

theorem escapes_cons (c : Char) (before : Text) :
    escapes (c :: before) = (c == '\\' && !escapes before) := by
  by_cases hc : c = '\\'
  · simp only [escapes, hc, List.takeWhile_cons, beq_self_eq_true, if_true, List.length_cons,
      Bool.true_and]
    rcases Nat.mod_two_eq_zero_or_one (before.takeWhile (· == '\\')).length with h | h <;>
      simp [Nat.add_mod, h]
  · simp [escapes, hc]

/-- What stands before a text decides about its first character. -/
theorem escapedBehind_escapes (before t : Text) :
    escapedBehind (escapes before) t = escapes (t.reverse ++ before) := by
  induction t generalizing before with
  | nil => rfl
  | cons c t ih => simp [← escapes_cons, ih]

/-- A character is escaped by what stands before it. -/
theorem isEscaped_eq (text : Text) (pos : Nat) :
    isEscaped text pos = escapedBehind false (text.take pos) := by
  have hstate := escapedBehind_escapes [] (text.take pos)
  rw [List.append_nil] at hstate
  exact hstate.symm

theorem isEscaped_slice (text : Text) {pos stop : Nat} (h : pos ≤ stop) :
    isEscaped text stop = escapedBehind (isEscaped text pos) (Text.slice text pos stop) := by
  have htake : (text.take stop).take pos = text.take pos := by
    rw [List.take_take, Nat.min_eq_left h]
  rw [isEscaped_eq, isEscaped_eq, ← escapedBehind_append, ← htake, Text.slice,
    List.take_append_drop]

theorem isEscaped_add {text u t : Text} {pos : Nat} (h : text.drop pos = u ++ t) :
    isEscaped text (pos + u.length) = escapedBehind (isEscaped text pos) u := by
  rw [isEscaped_slice text (Nat.le_add_right pos u.length), Text.slice_of_drop h]

theorem escapedBehind_of_not_mem {t : Text} (ht : '\\' ∉ t) : escapedBehind false t = false := by
  induction t with
  | nil => rfl
  | cons c t ih =>
    have hc : c ≠ '\\' := by
      rintro rfl
      exact ht List.mem_cons_self
    have htail : '\\' ∉ t := fun h => ht (List.mem_cons_of_mem c h)
    rw [escapedBehind_cons, beq_false_of_ne hc, Bool.false_and, ih htail]

theorem escapedBehind_concat (escaped : Bool) (t : Text) {c : Char} (hc : c ≠ '\\') :
    escapedBehind escaped (t ++ [c]) = false := by
  simp [hc]

theorem escapedBehind_of_getLast {escaped : Bool} {t : Text} (ht : t ≠ [])
    (hlast : t.getLast ht ≠ '\\') : escapedBehind escaped t = false := by
  rw [← List.dropLast_append_getLast ht]
  exact escapedBehind_concat escaped _ hlast

/-! ### Steps of a scan -/

variable {α : Type} {read : Recognizer α}

theorem hitsFrom_of_none {pos : Nat} {before t : Text} {c : Char}
    (h : read before (c :: t) = none) :
    hitsFrom read pos before 0 (c :: t) = hitsFrom read (pos + 1) (c :: before) 0 t := by
  simp only [hitsFrom, h]

theorem hitsFrom_skip (read : Recognizer α) (pos : Nat) (before u t : Text) :
    hitsFrom read pos before u.length (u ++ t) =
      hitsFrom read (pos + u.length) (u.reverse ++ before) 0 t := by
  induction u generalizing pos before with
  | nil => rfl
  | cons c u ih =>
    simp only [List.cons_append, List.length_cons, hitsFrom, ih, List.reverse_cons,
      List.append_assoc, List.nil_append]
    rw [Nat.add_assoc, Nat.add_comm 1]

theorem hitsFrom_of_some (pos : Nat) {before u t : Text} {value : α} (hu : u ≠ [])
    (h : read before (u ++ t) = some (value, t)) :
    hitsFrom read pos before 0 (u ++ t) = ⟨pos, pos + u.length, value⟩ ::
      hitsFrom read (pos + u.length) (u.reverse ++ before) 0 t := by
  obtain ⟨c, u, rfl⟩ := List.exists_cons_of_ne_nil hu
  have hsize : (c :: (u ++ t)).length - t.length = u.length + 1 := by
    simp only [List.length_cons, List.length_append]
    omega
  have hskip := hitsFrom_skip read (pos + 1) (c :: before) u t
  rw [Nat.add_assoc, Nat.add_comm 1] at hskip
  rw [List.cons_append] at h ⊢
  rw [hitsFrom]
  simp only [h]
  rw [hsize, Nat.add_sub_cancel, hskip]
  simp

/-- **Where no construct crosses a border**, the scan begins anew behind it. -/
theorem hitsFrom_append (hread : Advances read) (pos : Nat) (before front rest : Text)
    (hborder : ∀ u v value after, front = u ++ v → v ≠ [] →
      read (u.reverse ++ before) (v ++ rest) = some (value, after) → rest <:+ after) :
    ∃ hs, (∀ h ∈ hs, h.start < pos + front.length) ∧ hitsFrom read pos before 0 (front ++ rest) =
      hs ++ hitsFrom read (pos + front.length) (front.reverse ++ before) 0 rest := by
  by_cases hnil : front = []
  · subst hnil
    exact ⟨[], nofun, rfl⟩
  · obtain ⟨c, f, rfl⟩ := List.exists_cons_of_ne_nil hnil
    cases h : read before (c :: f ++ rest) with
    | none =>
      obtain ⟨hs, hstarts, hhs⟩ := hitsFrom_append hread (pos + 1) (c :: before) f rest
        fun u v value after hf hv hvalue =>
          hborder (c :: u) v value after (by rw [hf]; rfl) hv (by simpa using hvalue)
      have hlength : pos + 1 + f.length = pos + (c :: f).length := by
        rw [List.length_cons]
        omega
      refine ⟨hs, hlength ▸ hstarts, ?_⟩
      rw [List.cons_append] at h ⊢
      rw [hitsFrom_of_none h, hhs, hlength]
      simp
    | some found =>
      obtain ⟨value, after⟩ := found
      obtain ⟨w, hw⟩ := (hread _ _ _ _ h).1
      obtain ⟨f', rfl⟩ := hborder [] (c :: f) value after rfl hnil h
      have hfront : c :: f = w ++ f' := by
        rw [← List.append_assoc] at hw
        exact (List.append_cancel_right hw).symm
      have hne : w ≠ [] := by
        rintro rfl
        have := (hread _ _ _ _ h).2
        simp only [hfront, List.nil_append] at this
        exact absurd this (Nat.lt_irrefl _)
      have hshorter : f'.length < (c :: f).length := by
        have := List.length_pos_of_ne_nil hne
        rw [hfront, List.length_append]
        omega
      obtain ⟨hs, hstarts, hhs⟩ := hitsFrom_append hread (pos + w.length) (w.reverse ++ before)
        f' rest fun u v value after hf hv hvalue =>
          hborder (w ++ u) v value after (by rw [hfront, hf, List.append_assoc]) hv
            (by simpa using hvalue)
      have hlength : pos + w.length + f'.length = pos + (c :: f).length := by
        rw [hfront, List.length_append, Nat.add_assoc]
      have hfirst : pos < pos + (c :: f).length := Nat.lt_add_of_pos_right (Nat.succ_pos _)
      refine ⟨⟨pos, pos + w.length, value⟩ :: hs,
        List.forall_mem_cons.mpr ⟨hfirst, hlength ▸ hstarts⟩, ?_⟩
      rw [← hlength, hfront]
      rw [hfront, List.append_assoc] at h
      rw [List.append_assoc, hitsFrom_of_some pos hne h, hhs]
      simp
termination_by front.length

/-- **A scan over the first piece of a text**: its hits, and how much of the rest belongs to the
    last of them. -/
theorem hitsFrom_split (read : Recognizer α) (pos : Nat) (before : Text) (skip : Nat)
    (front rest : Text) : ∃ hs skip',
      hitsFrom read pos before skip (front ++ rest) =
        hs ++ hitsFrom read (pos + front.length) (front.reverse ++ before) skip' rest ∧
      (skip' = skip - front.length ∨
        ∃ h ∈ hs, h.start < pos + front.length ∧ h.stop = pos + front.length + skip') := by
  induction front generalizing pos before skip with
  | nil => exact ⟨[], skip, rfl, .inl rfl⟩
  | cons c front ih =>
    have hlength : pos + (c :: front).length = pos + 1 + front.length := by
      rw [List.length_cons]
      omega
    have hbefore : (c :: front).reverse ++ before = front.reverse ++ c :: before := by simp
    rw [hlength, hbefore, List.cons_append, List.length_cons]
    cases skip with
    | succ skip =>
      rw [hitsFrom, Nat.add_sub_add_right]
      exact ih (pos + 1) (c :: before) skip
    | zero =>
      rw [hitsFrom]
      cases read before (c :: (front ++ rest)) with
      | none =>
        obtain ⟨hs, skip', hhits, hskip⟩ := ih (pos + 1) (c :: before) 0
        refine ⟨hs, skip', hhits, ?_⟩
        simpa using hskip
      | some found =>
        obtain ⟨value, after⟩ := found
        dsimp only
        generalize hsize : (c :: (front ++ rest)).length - after.length = size
        obtain ⟨hs, skip', hhits, hskip⟩ := ih (pos + 1) (c :: before) (size - 1)
        refine ⟨⟨pos, pos + size, value⟩ :: hs, skip', by rw [hhits, List.cons_append], ?_⟩
        rcases hskip with hskip | ⟨h, hmem, hstart, hstop⟩
        · by_cases hlong : front.length + 1 ≤ size
          · exact .inr ⟨_, List.mem_cons_self, by dsimp only; omega, by dsimp only; omega⟩
          · exact .inl (by omega)
        · exact .inr ⟨h, List.mem_cons_of_mem _ hmem, hstart, hstop⟩

/-- If no hit goes on over a border, the scan begins anew behind it. -/
theorem exists_hitsFrom_append {read : Recognizer α} {pos : Nat} {before front rest : Text}
    (hborder : ∀ h ∈ hitsFrom read pos before 0 (front ++ rest), h.start < pos + front.length →
      h.stop ≤ pos + front.length) : ∃ hs, hitsFrom read pos before 0 (front ++ rest) =
        hs ++ hitsFrom read (pos + front.length) (front.reverse ++ before) 0 rest := by
  obtain ⟨hs, skip', hhits, hskip⟩ := hitsFrom_split read pos before 0 front rest
  have hzero : skip' = 0 := by
    rcases hskip with hskip | ⟨h, hmem, hstart, hstop⟩
    · simpa using hskip
    · have := hborder h (hhits ▸ List.mem_append_left _ hmem) hstart
      omega
  exact ⟨hs, hzero ▸ hhits⟩

/-! ### Commands -/

/-- A recogniser reads **one command** at a time: a backslash, and no other one. -/
def OneCommand (read : Recognizer α) : Prop :=
  ∀ before t value after, read before t = some (value, after) →
    ∃ w, t = '\\' :: w ++ after ∧ '\\' ∉ w

namespace OneCommand

theorem advances (hread : OneCommand read) : Advances read := by
  intro before t value after h
  obtain ⟨w, rfl, -⟩ := hread _ _ _ _ h
  exact .cons (List.suffix_append w after)

/-- No command crosses a backslash. -/
theorem border (hread : OneCommand read) {before v rest after : Text} {value : α} (hv : v ≠ [])
    (h : read before (v ++ '\\' :: rest) = some (value, after)) : '\\' :: rest <:+ after := by
  obtain ⟨w, htext, hw⟩ := hread _ _ _ _ h
  rcases List.append_eq_append_iff.mp htext with ⟨behind, hbehind, hrest⟩ | ⟨between, -, rfl⟩
  · cases behind with
    | nil =>
      rw [List.nil_append] at hrest
      exact hrest ▸ List.suffix_refl _
    | cons c behind =>
      -- the backslash would belong to the command
      obtain ⟨d, v, rfl⟩ := List.exists_cons_of_ne_nil hv
      obtain ⟨-, hw'⟩ := List.cons.inj hbehind
      obtain ⟨rfl, -⟩ := List.cons.inj hrest
      exact absurd (hw' ▸ List.mem_append_right v List.mem_cons_self) hw
  · exact List.suffix_append _ _

end OneCommand

/-- **A construct is met** wherever it can be read, if none that begins before it goes on into
    it. -/
theorem mem_hits_of_border (hread : Advances read) {text : Text} {h : Hit α}
    (hvalue : read (text.take h.start).reverse (text.drop h.start) =
      some (h.value, text.drop h.stop))
    (hlt : h.start < h.stop) (hle : h.stop ≤ text.length)
    (hborder : ∀ u v value after, text.take h.start = u ++ v → v ≠ [] →
      read u.reverse (v ++ text.drop h.start) = some (value, after) →
      text.drop h.start <:+ after) : h ∈ hits read text := by
  have hstart : 0 + (text.take h.start).length = h.start := by
    rw [List.length_take]
    omega
  have hdrop : text.drop h.start = Text.slice text h.start h.stop ++ text.drop h.stop := by
    have hsplit := List.take_append_drop (h.stop - h.start) (text.drop h.start)
    rw [List.drop_drop, Nat.add_sub_cancel' hlt.le, ← List.drop_take] at hsplit
    exact hsplit.symm
  have hsize : (Text.slice text h.start h.stop).length = h.stop - h.start := by
    rw [Text.slice, List.length_drop, List.length_take]
    omega
  have hne : Text.slice text h.start h.stop ≠ [] :=
    List.ne_nil_of_length_pos (by omega)
  obtain ⟨hs, -, hhits⟩ := hitsFrom_append hread 0 [] (text.take h.start) (text.drop h.start)
    fun u v value after huv hv hfound => hborder u v value after huv hv (by simpa using hfound)
  rw [hdrop, ← List.append_nil (List.reverse _)] at hvalue
  have hfirst := hitsFrom_of_some h.start hne hvalue
  rw [hsize, Nat.add_sub_cancel' hlt.le] at hfirst
  rw [List.take_append_drop, hstart, hdrop, hfirst] at hhits
  rw [hits, hhits]
  exact List.mem_append_right _ List.mem_cons_self

/-- **No command is missed**: wherever one can be read, it is a hit. -/
theorem mem_hits_of_read (hread : OneCommand read) {text : Text} {h : Hit α}
    (hvalue : read (text.take h.start).reverse (text.drop h.start) =
      some (h.value, text.drop h.stop))
    (hlt : h.start < h.stop) (hle : h.stop ≤ text.length) : h ∈ hits read text := by
  obtain ⟨w, hdrop, -⟩ := hread _ _ _ _ hvalue
  refine mem_hits_of_border hread.advances hvalue hlt hle ?_
  intro u v value after _ hne hfound
  rw [hdrop, List.cons_append] at hfound ⊢
  exact hread.border hne hfound

/-! ### Commands with an argument -/

/-- The text before the first brace of a text. -/
theorem first_brace_unique {x y s t : Text} {a b : Char} (hx : ∀ c ∈ x, c ≠ '{' ∧ c ≠ '}')
    (hy : ∀ c ∈ y, c ≠ '{' ∧ c ≠ '}') (ha : a = '{' ∨ a = '}') (hb : b = '{' ∨ b = '}')
    (h : x ++ a :: s = y ++ b :: t) : x = y ∧ a = b ∧ s = t := by
  induction x generalizing y with
  | nil =>
    cases y with
    | nil => exact ⟨rfl, List.cons.inj h⟩
    | cons d y =>
      obtain ⟨rfl, -⟩ := List.cons.inj h
      exact absurd ha (not_or.mpr (hy a List.mem_cons_self))
  | cons c x ih =>
    obtain ⟨hc, hx⟩ := List.forall_mem_cons.mp hx
    cases y with
    | nil =>
      obtain ⟨rfl, -⟩ := List.cons.inj h
      exact absurd hb (not_or.mpr hc)
    | cons d y =>
      obtain ⟨rfl, hbehind⟩ := List.cons.inj h
      obtain ⟨rfl, hrest⟩ := ih hx (List.forall_mem_cons.mp hy).2 hbehind
      exact ⟨rfl, hrest⟩

/-- A recogniser reads commands with one **flat argument**: a backslash, characters that are no
    backslash and no brace, and a group without braces. -/
def FlatCommand (read : Recognizer α) : Prop :=
  ∀ before t value after, read before t = some (value, after) →
    ∃ u inner, t = '\\' :: (u ++ '{' :: (inner ++ '}' :: after)) ∧
      (∀ c ∈ u, c ≠ '\\' ∧ c ≠ '{' ∧ c ≠ '}') ∧ ∀ c ∈ inner, c ≠ '{' ∧ c ≠ '}'

namespace FlatCommand

theorem advances (hread : FlatCommand read) : Advances read := by
  intro before t value after h
  obtain ⟨u, inner, rfl, -, -⟩ := hread _ _ _ _ h
  exact .cons (((List.suffix_cons '}' after).trans (List.suffix_append inner _)).trans
    ((List.suffix_cons '{' _).trans (List.suffix_append u _)))

/-- **No command goes on into another one**: the argument of the first would hold the brace of the
    second. -/
theorem border (hread : FlatCommand read) {before v u s after : Text} {value : α}
    (hu : ∀ c ∈ u, c ≠ '{' ∧ c ≠ '}') (hv : v ≠ [])
    (h : read before (v ++ '\\' :: (u ++ '{' :: s)) = some (value, after)) :
    '\\' :: (u ++ '{' :: s) <:+ after := by
  obtain ⟨w, inner, htext, hw, hinner⟩ := hread _ _ _ _ h
  obtain ⟨c, v, rfl⟩ := List.exists_cons_of_ne_nil hv
  obtain ⟨-, htext⟩ := List.cons.inj htext
  -- the second backslash stands in front of the argument of the first command, in it, or behind it
  rcases List.append_eq_append_iff.mp htext with ⟨x, rfl, hx⟩ | ⟨x, -, hx⟩
  · cases x with
    | nil => cases hx
    | cons d x =>
      obtain ⟨rfl, -⟩ := List.cons.inj hx
      exact absurd rfl (hw '\\' (List.mem_append_right v List.mem_cons_self)).1
  · cases x with
    | nil => cases hx
    | cons d x =>
      obtain ⟨-, hx⟩ := List.cons.inj hx
      rcases List.append_eq_append_iff.mp hx with ⟨y, -, hy⟩ | ⟨y, rfl, hy⟩
      · cases y with
        | nil => cases hy
        | cons e y =>
          obtain ⟨-, rfl⟩ := List.cons.inj hy
          exact List.suffix_append y _
      · have hcommand : ∀ c ∈ '\\' :: u, c ≠ '{' ∧ c ≠ '}' :=
          List.forall_mem_cons.mpr ⟨by decide, hu⟩
        have hrest : ∀ c ∈ y, c ≠ '{' ∧ c ≠ '}' := fun c hc => hinner c (List.mem_append_right x hc)
        have hbrace := (first_brace_unique hcommand hrest (.inl rfl) (.inr rfl) hy).2.1
        cases hbrace

end FlatCommand

/-! ### What occurs in a text -/

/-- A construct **can be read** in a text, escaped or not. -/
structure IsRead (read : Recognizer α) (text : Text) (h : Hit α) : Prop where
  read : read (text.take h.start).reverse (text.drop h.start) = some (h.value, text.drop h.stop)
  lt : h.start < h.stop
  le : h.stop ≤ text.length

/-- **The hits are all that can be read**: no command with a flat argument is missed. -/
theorem FlatCommand.mem_hits_iff_isRead (hread : FlatCommand read) {text : Text} {h : Hit α} :
    h ∈ hits read text ↔ IsRead read text h := by
  constructor
  · intro hmem
    obtain ⟨hvalue, hlt, hle⟩ := hit_spec hread.advances hmem
    exact ⟨hvalue, hlt, hle⟩
  · rintro ⟨hvalue, hlt, hle⟩
    refine mem_hits_of_border hread.advances hvalue hlt hle ?_
    obtain ⟨u, inner, hdrop, hu, -⟩ := hread _ _ _ _ hvalue
    intro x v value after _ hv hfound
    rw [hdrop] at hfound ⊢
    exact hread.border (fun c hc => (hu c hc).2) hv hfound

/-- A construct **occurs** in a text: it can be read there, and it is not escaped. -/
structure Occurs (read : Recognizer α) (text : Text) (h : Hit α) : Prop where
  read : read (text.take h.start).reverse (text.drop h.start) = some (h.value, text.drop h.stop)
  lt : h.start < h.stop
  le : h.stop ≤ text.length
  unescaped : isEscaped text h.start = false

theorem FlatCommand.mem_hits_iff (hread : FlatCommand read) {text : Text} {h : Hit α} :
    h ∈ (hits read text).filter (fun h => !isEscaped text h.start) ↔ Occurs read text h := by
  rw [List.mem_filter, Bool.not_eq_true', hread.mem_hits_iff_isRead]
  exact ⟨fun ⟨hread, hescaped⟩ => ⟨hread.read, hread.lt, hread.le, hescaped⟩,
    fun hoccurs => ⟨⟨hoccurs.read, hoccurs.lt, hoccurs.le⟩, hoccurs.unescaped⟩⟩

/-! ### What is not escaped -/

/-- A recogniser that reads nothing at escaped places. -/
def unescaped (read : Recognizer α) : Recognizer α := fun before rest =>
  if escapes before then none else read before rest

/-- Where no construct begins, the scan passes. -/
theorem hitsFrom_of_behind {pos : Nat} {before u t : Text}
    (h : ∀ k ∈ hitsFrom read pos before 0 (u ++ t), pos + u.length ≤ k.start) :
    hitsFrom read pos before 0 (u ++ t) =
      hitsFrom read (pos + u.length) (u.reverse ++ before) 0 t := by
  induction u generalizing pos before with
  | nil => rfl
  | cons c u ih =>
    rw [List.cons_append] at h ⊢
    cases hvalue : read before (c :: (u ++ t)) with
    | none =>
      have hlength : pos + (c :: u).length = pos + 1 + u.length := by
        rw [List.length_cons]
        omega
      rw [hitsFrom_of_none hvalue] at h ⊢
      rw [hlength] at h ⊢
      rw [ih h, List.reverse_cons, List.append_assoc]
      rfl
    | some found =>
      rw [hitsFrom] at h
      simp only [hvalue] at h
      have hfirst := h _ List.mem_cons_self
      simp only [List.length_cons] at hfirst
      omega

theorem filter_hitsFrom (hread : Advances read) {text before t : Text}
    (htext : text = before.reverse ++ t)
    (hinside : ∀ h ∈ hitsFrom read before.length before 0 t, isEscaped text h.start →
      ∀ k ∈ hitsFrom (unescaped read) before.length before 0 t,
        k.start < h.start ∨ h.stop ≤ k.start) :
    (hitsFrom read before.length before 0 t).filter (fun h => !isEscaped text h.start) =
      hitsFrom (unescaped read) before.length before 0 t := by
  cases t with
  | nil => rfl
  | cons c t =>
    have hescapes : isEscaped text before.length = escapes before := by
      rw [htext, isEscaped, ← List.length_reverse, List.take_left, List.reverse_reverse]
    cases hvalue : read before (c :: t) with
    | none =>
      have hnone : unescaped read before (c :: t) = none := by
        rw [unescaped, hvalue, ite_self]
      rw [hitsFrom_of_none hvalue, hitsFrom_of_none hnone] at hinside ⊢
      have htext' : text = (c :: before).reverse ++ t := by simp [htext]
      exact filter_hitsFrom hread htext' hinside
    | some found =>
      obtain ⟨value, after⟩ := found
      obtain ⟨⟨u, hu⟩, hlt⟩ := hread _ _ _ _ hvalue
      have hne : u ≠ [] := by
        rintro rfl
        rw [← hu] at hlt
        exact absurd hlt (Nat.lt_irrefl _)
      have hshorter : after.length < t.length + 1 := hlt
      rw [← hu] at hvalue htext hinside ⊢
      have hlength : before.length + u.length = (u.reverse ++ before).length := by
        rw [List.length_append, List.length_reverse, Nat.add_comm]
      have htext' : text = (u.reverse ++ before).reverse ++ after := by simp [htext]
      have hhits := hitsFrom_of_some before.length hne hvalue
      rw [hhits] at hinside ⊢
      obtain ⟨hfirst, hrest⟩ := List.forall_mem_cons.mp hinside
      cases hescaped : escapes before with
      | true =>
        -- inside of the escaped construct nothing begins, so both scans meet behind it
        rw [hescaped] at hescapes
        have hbehind : ∀ k ∈ hitsFrom (unescaped read) before.length before 0 (u ++ after),
            before.length + u.length ≤ k.start := by
          intro k hk
          have hpos := (bounds_of_mem_hitsFrom _ _ _ _ _ k hk).1
          have hcases : k.start < before.length ∨ before.length + u.length ≤ k.start :=
            hfirst hescapes k hk
          omega
        rw [hitsFrom_of_behind hbehind] at hrest ⊢
        rw [List.filter_cons_of_neg (by simp [hescapes]), hlength]
        rw [hlength] at hrest
        exact filter_hitsFrom hread htext' hrest
      | false =>
        rw [hescaped] at hescapes
        have hread' : unescaped read before (u ++ after) = some (value, after) := by
          rw [unescaped, hescaped]
          exact hvalue
        rw [hitsFrom_of_some before.length hne hread'] at hrest ⊢
        rw [List.filter_cons_of_pos (by simp [hescapes]), hlength]
        rw [hlength] at hrest
        refine congrArg _ (filter_hitsFrom hread htext' fun h hh hescaped k hk => ?_)
        exact hrest h hh hescaped k (List.mem_cons_of_mem _ hk)
termination_by t.length

/-- **Which constructs are lost** when the escaped ones are left out after the scan: those that
    begin inside of an escaped one. -/
theorem filter_hits_eq_iff (hread : Advances read) (text : Text) :
    (hits read text).filter (fun h => !isEscaped text h.start) = hits (unescaped read) text ↔
      ∀ h ∈ hits read text, isEscaped text h.start → ∀ k ∈ hits (unescaped read) text,
        k.start < h.start ∨ h.stop ≤ k.start := by
  constructor
  · intro heq h hh hescaped k hk
    rw [← heq] at hk
    obtain ⟨hk, hunescaped⟩ := List.mem_filter.mp hk
    have hne : h ≠ k := by
      rintro rfl
      rw [hescaped] at hunescaped
      cases hunescaped
    have hlt := (hit_spec hread hk).2.1
    rcases apart_of_pairwise ((pairwise_hits read text).imp And.left) hh hk hne with hle | hle
    · exact .inr hle
    · exact .inl (by omega)
  · have htext : text = ([] : Text).reverse ++ text := rfl
    exact fun hinside => filter_hitsFrom hread htext hinside

/-! ### Replacing -/

theorem replaceFrom_skip (read : Recognizer Text) (before u t : Text) (skip : Nat) :
    replaceFrom read before (u.length + skip) (u ++ t) =
      replaceFrom read (u.reverse ++ before) skip t := by
  induction u generalizing before with
  | nil => rw [List.length_nil, Nat.zero_add]; rfl
  | cons c u ih =>
    rw [List.length_cons, Nat.add_right_comm, List.cons_append, replaceFrom, ih, List.reverse_cons,
      List.append_assoc]
    rfl

/-- Where nothing is read, the text is copied. -/
theorem replaceFrom_copy {read : Recognizer Text} {before u t : Text}
    (h : ∀ x c y, u = x ++ c :: y → read (x.reverse ++ before) (c :: (y ++ t)) = none) :
    replaceFrom read before 0 (u ++ t) = u ++ replaceFrom read (u.reverse ++ before) 0 t := by
  induction u generalizing before with
  | nil => rfl
  | cons c u ih =>
    have hfirst := h [] c u rfl
    rw [List.reverse_nil, List.nil_append] at hfirst
    rw [List.cons_append, replaceFrom, hfirst]
    dsimp only
    rw [ih, List.cons_append, List.reverse_cons, List.append_assoc]
    · rfl
    · intro x d y hu
      simpa using h (c :: x) d y (by rw [hu, List.cons_append])

/-! ### Erasing -/

/-- A recogniser that puts nothing in leaves what lies outside of its hits. -/
theorem replaceFrom_eq_outsideFrom {read : Recognizer Text} (hread : Advances read)
    (hnil : ∀ before t value after, read before t = some (value, after) → value = [])
    (pos : Nat) (before : Text) (skip : Nat) (t : Text) :
    replaceFrom read before skip t = Text.outsideFrom
      ((hitsFrom read pos before skip t).map fun h => (h.start, h.stop)) (pos + skip)
      (t.drop skip) := by
  induction t generalizing pos before skip with
  | nil => simp [replaceFrom, Text.outsideFrom]
  | cons c t ih =>
    cases skip with
    | succ skip =>
      rw [replaceFrom, hitsFrom, ih (pos + 1), List.drop_succ_cons, Nat.add_right_comm,
        Nat.add_assoc]
    | zero =>
      rw [replaceFrom, hitsFrom]
      cases hvalue : read before (c :: t) with
      | none =>
        have hbehind : ∀ r ∈ (hitsFrom read (pos + 1) (c :: before) 0 t).map
            (fun h => (h.start, h.stop)), pos + [c].length ≤ r.1 := by
          rw [List.forall_mem_map]
          intro h hmem
          exact (bounds_of_mem_hitsFrom read (pos + 1) (c :: before) 0 t h hmem).1
        have hsplit := Text.outsideFrom_append ((hitsFrom read (pos + 1) (c :: before) 0 t).map
          fun h => (h.start, h.stop)) pos [c] t
        rw [Text.outsideFrom_of_before hbehind] at hsplit
        dsimp only
        rw [ih (pos + 1)]
        exact hsplit.symm
      | some found =>
        obtain ⟨value, after⟩ := found
        obtain rfl := hnil _ _ _ _ hvalue
        obtain ⟨⟨u, hu⟩, hlt⟩ := hread _ _ _ _ hvalue
        -- the construct, of which the first character has been taken
        obtain ⟨d, u, rfl⟩ : ∃ d v, u = d :: v := by
          apply List.exists_cons_of_ne_nil
          rintro rfl
          rw [← hu] at hlt
          exact absurd hlt (Nat.lt_irrefl _)
        rw [List.cons_append] at hu
        obtain ⟨rfl, rfl⟩ := List.cons.inj hu
        have hsize : (d :: (u ++ after)).length - after.length = u.length + 1 := by
          simp only [List.length_cons, List.length_append]
          omega
        have hskip : (u ++ after).length - after.length = u.length := by
          rw [List.length_append, Nat.add_sub_cancel]
        dsimp only
        rw [hsize, hskip, Nat.add_sub_cancel, List.nil_append, ih (pos + 1), List.drop_left,
          List.map_cons]
        generalize (hitsFrom read (pos + 1) (d :: before) u.length (u ++ after)).map
          (fun h => (h.start, h.stop)) = ranges
        have hrange := Text.outsideFrom_range ranges pos (d :: u) after
        rw [List.length_cons] at hrange
        change _ = Text.outsideFrom ((pos, pos + (u.length + 1)) :: ranges) pos (d :: u ++ after)
        rw [hrange, Nat.add_right_comm, Nat.add_assoc]

end TexMark.Scan
