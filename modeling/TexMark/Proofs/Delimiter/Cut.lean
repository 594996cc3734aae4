/-
  TexMark/Proofs/Delimiter/Cut.lean
  =================================
  **Texts cut at their delimiters.**  The scan for delimiters takes line breaks and escaped
  dollars as a whole.  What that comes to is a scan that remembers one thing, whether the next
  character is escaped (`Scan.escapedBehind`): a delimiter counts where it stands unescaped.
  `Cut` says so for every place of a text.

    * `cut_delimiters` — the delimiters of a text cut it in this sense, and nothing else does
      (`Cut.unique`);
    * `Cut.exists_first` — in front of each delimiter lies a gap in which no delimiter stands
      unescaped, and which leaves the delimiter unescaped;
    * `Bare.isEscaped` — in a text without delimiters all that looks like one is escaped.
-/
import TexMark.Proofs.Delimiter.Items
import TexMark.Proofs.Scans

namespace TexMark.Delimiter

open Scan (escapedBehind)

/-- What the delimiters of some rules are written as. -/
def marks (rules : List DelimiterRule) : List Text := rules.flatMap fun r => [r.opener, r.closer]

/-- A delimiter is a backslash with a name, or dollars.  Backslash and dollar stand nowhere
    else in it. -/
def Formed (d : Text) : Prop :=
  (d.head? = some '\\' ∧ d.tail ≠ [] ∧ ∀ c ∈ d.tail, c ≠ '\\' ∧ c ≠ '$') ∨
    (d ≠ [] ∧ ∀ c ∈ d, c = '$')

instance decidableFormed (d : Text) : Decidable (Formed d) :=
  letI : Decidable (∀ c ∈ d.tail, c ≠ '\\' ∧ c ≠ '$') := List.decidableBAll _ d.tail
  letI : Decidable (∀ c ∈ d, c = '$') := List.decidableBAll _ d
  inferInstanceAs (Decidable ((_ ∧ _ ∧ _) ∨ (_ ∧ _)))

variable {rules : List DelimiterRule} {d t : Text} {hs : List (Hit Text)}

theorem mem_tokens : t ∈ tokens rules ↔ t ∈ inertTokens ∨ t ∈ marks rules := by
  simp only [tokens, marks, List.mem_mergeSort, List.mem_append]

theorem token_spec {before rest after : Text} {tokens : List Text}
    (h : token tokens before rest = some (t, after)) : t ∈ tokens ∧ rest = t ++ after := by
  obtain ⟨u, hu, hread⟩ := List.exists_of_findSome?_eq_some h
  obtain ⟨after', hdrop, heq⟩ := Option.map_eq_some_iff.mp hread
  cases heq
  exact ⟨hu, Text.dropPrefix?_eq_some_iff.mp hdrop⟩

theorem exists_token (before : Text) {rest : Text} {tokens : List Text} (ht : t ∈ tokens)
    (hbegins : t <+: rest) : ∃ u after, token tokens before rest = some (u, after) := by
  cases h : token tokens before rest with
  | some r => exact ⟨r.1, r.2, rfl⟩
  | none =>
    have hnone := List.findSome?_eq_none_iff.mp h t ht
    obtain ⟨after, rfl⟩ := hbegins
    rw [Option.map_eq_none_iff] at hnone
    rw [Text.dropPrefix?_eq_some_iff.mpr rfl] at hnone
    cases hnone

namespace Formed

theorem ne_nil (h : Formed d) : d ≠ [] := by
  rcases h with ⟨hhead, -, -⟩ | ⟨hne, -⟩
  · rintro rfl
    cases hhead
  · exact hne

theorem head (h : Formed d) {c : Char} (hc : d.head? = some c) : c = '\\' ∨ c = '$' := by
  rcases h with ⟨hhead, -, -⟩ | ⟨-, hall⟩
  · rw [hhead] at hc
    exact .inl (Option.some.inj hc).symm
  · exact .inr (hall c (List.mem_of_head? hc))

/-- A delimiter that begins with a backslash goes on with a name. -/
theorem second (h : Formed d) {c : Char} {rest : Text} (hd : d <+: '\\' :: c :: rest) :
    c ≠ '\\' ∧ c ≠ '$' := by
  obtain ⟨after, hafter⟩ := hd
  rcases h with ⟨-, htail, hname⟩ | ⟨hne, hall⟩
  · cases d with
    | nil => cases htail rfl
    | cons b d =>
      obtain ⟨b', d, rfl⟩ := List.exists_cons_of_ne_nil htail
      simp only [List.cons_append, List.cons.injEq] at hafter
      exact hafter.2.1 ▸ hname b' List.mem_cons_self
  · obtain ⟨b, d, rfl⟩ := List.exists_cons_of_ne_nil hne
    have hb := hall b List.mem_cons_self
    simp only [List.cons_append, List.cons.injEq] at hafter
    rw [hb] at hafter
    exact absurd hafter.1 (by decide)

theorem escapedBehind (h : Formed d) (escaped : Bool) : escapedBehind escaped d = false := by
  have hlast : d.getLast h.ne_nil ≠ '\\' := by
    rcases h with ⟨hhead, htail, hname⟩ | ⟨hne, hall⟩
    · rw [← List.getLast_tail htail]
      exact (hname _ (List.getLast_mem htail)).1
    · rw [hall _ (List.getLast_mem hne)]
      decide
  exact Scan.escapedBehind_of_getLast h.ne_nil hlast

theorem not_mem_inertTokens (h : Formed d) : d ∉ inertTokens := by
  intro hmem
  have hcases : d = ['\\', '\\'] ∨ d = ['\\', '$'] := by simpa [inertTokens] using hmem
  rcases hcases with rfl | rfl
  · exact (h.second (List.prefix_refl ['\\', '\\'])).1 rfl
  · exact (h.second (List.prefix_refl ['\\', '$'])).2 rfl

end Formed

/-! ### Cuts -/

/-- **A text cut at some delimiters.**  Each of them stands at an unescaped place, and is what
    the tokens read there; at no other unescaped place stands a delimiter. -/
inductive Cut (rules : List DelimiterRule) : Bool → Nat → Text → List (Hit Text) → Prop
  | done {escaped : Bool} {pos : Nat} : Cut rules escaped pos [] []
  | skip {escaped : Bool} {pos : Nat} {c : Char} {t : Text} {hs : List (Hit Text)} :
    (escaped = false → ∀ d ∈ marks rules, ¬ d <+: c :: t) →
    Cut rules (c == '\\' && !escaped) (pos + 1) t hs → Cut rules escaped pos (c :: t) hs
  | mark {pos : Nat} {d t : Text} {hs : List (Hit Text)} : d ∈ marks rules →
    token (tokens rules) [] (d ++ t) = some (d, t) → Cut rules false (pos + d.length) t hs →
    Cut rules false pos (d ++ t) (⟨pos, pos + d.length, d⟩ :: hs)

/-- The delimiters found in the rest of a text. -/
def delimitersFrom (rules : List DelimiterRule) (pos : Nat) (before t : Text) : List (Hit Text) :=
  (Scan.hitsFrom (token (tokens rules)) pos before 0 t).filter fun h =>
    !inertTokens.contains h.value

theorem exists_read (hformed : ∀ d ∈ marks rules, Formed d) (before : Text) {d rest : Text}
    (hd : d ∈ marks rules) (hbegins : d <+: rest) :
    ∃ u ∈ marks rules, ∃ after, rest = u ++ after ∧
      token (tokens rules) before rest = some (u, after) := by
  obtain ⟨u, after, hread⟩ := exists_token before (mem_tokens.mpr (.inr hd)) hbegins
  obtain ⟨hu, hrest⟩ := token_spec hread
  rcases mem_tokens.mp hu with hinert | hmark
  · -- an inert token and a delimiter do not begin alike
    have hcases : u = ['\\', '\\'] ∨ u = ['\\', '$'] := by simpa [inertTokens] using hinert
    rcases hcases with rfl | rfl
    · rw [hrest] at hbegins
      exact absurd rfl ((hformed d hd).second hbegins).1
    · rw [hrest] at hbegins
      exact absurd rfl ((hformed d hd).second hbegins).2
  · exact ⟨u, hmark, after, hrest, hread⟩

theorem mem_inertTokens {u : Text} :
    u ∈ inertTokens ↔ u = ['\\', '\\'] ∨ u = ['\\', '$'] := by
  simp [inertTokens]

theorem token_eq_none {before rest : Text} (hinert : ∀ u ∈ inertTokens, ¬ u <+: rest)
    (hno : ∀ d ∈ marks rules, ¬ d <+: rest) : token (tokens rules) before rest = none := by
  cases h : token (tokens rules) before rest with
  | none => rfl
  | some r =>
    obtain ⟨u, after⟩ := r
    obtain ⟨hu, hrest⟩ := token_spec h
    have hbegins : u <+: rest := ⟨after, hrest.symm⟩
    rcases mem_tokens.mp hu with hmem | hmem
    · exact absurd hbegins (hinert _ hmem)
    · exact absurd hbegins (hno _ hmem)

/-- A backslash that begins no delimiter is passed together with the next character. -/
theorem delimitersFrom_escape (hformed : ∀ d ∈ marks rules, Formed d) (pos : Nat)
    (before : Text) {c : Char} {rest : Text}
    (hno : ∀ d ∈ marks rules, ¬ d <+: '\\' :: c :: rest) :
    delimitersFrom rules pos before ('\\' :: c :: rest) =
      delimitersFrom rules (pos + 2) (c :: '\\' :: before) rest := by
  by_cases hc : c = '\\' ∨ c = '$'
  · have hinert : ['\\', c] ∈ inertTokens := by
      rcases hc with rfl | rfl <;> decide
    have htoken : ['\\', c] ∈ tokens rules := mem_tokens.mpr (.inl hinert)
    have hbegins : ['\\', c] <+: '\\' :: c :: rest := ⟨rest, rfl⟩
    obtain ⟨u, after, hread⟩ := exists_token before htoken hbegins
    obtain ⟨hu, hrest⟩ := token_spec hread
    have hmem : u ∈ inertTokens := by
      rcases mem_tokens.mp hu with hmem | hmem
      · exact hmem
      · exact absurd ⟨after, hrest.symm⟩ (hno u hmem)
    have hpair : u = ['\\', c] ∧ after = rest := by
      rcases mem_inertTokens.mp hmem with rfl | rfl <;> simp at hrest <;> simp [hrest]
    obtain ⟨rfl, rfl⟩ := hpair
    have hhits := Scan.hitsFrom_of_some pos (u := ['\\', c]) (List.cons_ne_nil _ _) hread
    simp only [List.cons_append, List.nil_append] at hhits
    simp [delimitersFrom, hhits, hmem]
  · have hc' := not_or.mp hc
    -- tokens begin with a backslash or a dollar
    have hfirst : token (tokens rules) before ('\\' :: c :: rest) = none := by
      refine token_eq_none (fun u hu hbegins => ?_) hno
      rcases mem_inertTokens.mp hu with rfl | rfl <;> simp at hbegins
      · exact hc (.inl hbegins.symm)
      · exact hc (.inr hbegins.symm)
    have hsecond : token (tokens rules) ('\\' :: before) (c :: rest) = none := by
      refine token_eq_none (fun u hu hbegins => ?_) fun d hd hbegins => ?_
      · rcases mem_inertTokens.mp hu with rfl | rfl <;> simp at hbegins
        · exact hc (.inl hbegins.1.symm)
        · exact hc (.inl hbegins.1.symm)
      · have hne := (hformed d hd).ne_nil
        have hhead : d.head? = some c := by
          obtain ⟨b, d, rfl⟩ := List.exists_cons_of_ne_nil hne
          simp at hbegins
          simp [hbegins.1]
        exact hc ((hformed d hd).head hhead)
    rw [delimitersFrom, Scan.hitsFrom_of_none hfirst, Scan.hitsFrom_of_none hsecond]
    rfl

theorem cut_delimitersFrom (hformed : ∀ d ∈ marks rules, Formed d) (pos : Nat)
    (before t : Text) : Cut rules false pos t (delimitersFrom rules pos before t) := by
  by_cases hmark : ∃ d ∈ marks rules, d <+: t
  · obtain ⟨d, hd, hbegins⟩ := hmark
    obtain ⟨u, hu, after, rfl, hread⟩ := exists_read hformed before hd hbegins
    have hne := (hformed u hu).ne_nil
    have hlength : after.length < (u ++ after).length := by
      have := List.length_pos_iff.mpr hne
      simp only [List.length_append]
      omega
    have hkept : ¬ u ∈ inertTokens := (hformed u hu).not_mem_inertTokens
    have hscan : delimitersFrom rules pos before (u ++ after) = ⟨pos, pos + u.length, u⟩ ::
        delimitersFrom rules (pos + u.length) (u.reverse ++ before) after := by
      rw [delimitersFrom, Scan.hitsFrom_of_some pos hne hread, List.filter_cons_of_pos (by simpa)]
      rfl
    rw [hscan]
    exact .mark hu hread (cut_delimitersFrom hformed _ _ after)
  · have hno : ∀ d ∈ marks rules, ¬ d <+: t := fun d hd hbegins => hmark ⟨d, hd, hbegins⟩
    cases t with
    | nil => exact .done
    | cons c rest =>
      by_cases hc : c = '\\'
      · subst hc
        cases rest with
        | nil =>
          have hnone : token (tokens rules) before ['\\'] = none := by
            refine token_eq_none (fun u hu hbegins => ?_) hno
            rcases mem_inertTokens.mp hu with rfl | rfl <;> simp at hbegins
          rw [delimitersFrom, Scan.hitsFrom_of_none hnone]
          exact .skip (fun _ => hno) .done
        | cons c rest =>
          rw [delimitersFrom_escape hformed pos before hno]
          have hescaped : Cut rules true (pos + 1) (c :: rest)
              (delimitersFrom rules (pos + 2) (c :: '\\' :: before) rest) := by
            refine .skip nofun ?_
            rw [Bool.not_true, Bool.and_false]
            exact cut_delimitersFrom hformed _ _ rest
          exact .skip (fun _ => hno) hescaped
      · have hnone : token (tokens rules) before (c :: rest) = none := by
          refine token_eq_none (fun u hu hbegins => ?_) hno
          rcases mem_inertTokens.mp hu with rfl | rfl <;> simp at hbegins
          · exact hc hbegins.1.symm
          · exact hc hbegins.1.symm
        rw [delimitersFrom, Scan.hitsFrom_of_none hnone]
        refine .skip (fun _ => hno) ?_
        rw [beq_false_of_ne hc, Bool.false_and]
        exact cut_delimitersFrom hformed _ _ rest
termination_by t.length

/-- **The delimiters of a text cut it.** -/
theorem cut_delimiters (hformed : ∀ d ∈ marks rules, Formed d) (text : Text) :
    Cut rules false 0 text (delimiters rules text) :=
  cut_delimitersFrom hformed 0 [] text

namespace Cut

/-- A text is cut in one way only. -/
theorem unique (hformed : ∀ d ∈ marks rules, Formed d) {escaped : Bool} {pos : Nat}
    {hs ks : List (Hit Text)} (h : Cut rules escaped pos t hs) (k : Cut rules escaped pos t ks) :
    hs = ks := by
  induction h generalizing ks with
  | done =>
    generalize ht : ([] : Text) = t at k
    cases k with
    | done => rfl
    | skip => cases ht
    | mark hd => exact absurd (List.append_eq_nil_iff.mp ht.symm).1 (hformed _ hd).ne_nil
  | @skip escaped pos c t _ hno _ ih =>
    generalize ht : c :: t = t' at k
    cases k with
    | done => cases ht
    | skip _ hrest =>
      cases ht
      exact ih hrest
    | mark hd => exact absurd ⟨_, ht.symm⟩ (hno rfl _ hd)
  | @mark pos d t _ hd hread _ ih =>
    generalize ht : d ++ t = t' at k
    cases k with
    | done => exact absurd (List.append_eq_nil_iff.mp ht).1 (hformed d hd).ne_nil
    | skip hno => exact absurd ⟨t, ht⟩ (hno rfl d hd)
    | mark _ hread' hrest =>
      rw [← ht, hread] at hread'
      cases hread'
      rw [ih hrest]

theorem delimiters_eq (hformed : ∀ d ∈ marks rules, Formed d) {text : Text}
    (h : Cut rules false 0 text hs) : delimiters rules text = hs :=
  (cut_delimiters hformed text).unique hformed h

end Cut

/-! ### Gaps -/

/-- No delimiter stands at an unescaped place of a text. -/
def Bare (ds : List Text) : Bool → Text → Prop
  | _, [] => True
  | escaped, c :: t =>
    (escaped = false → ∀ d ∈ ds, ¬ d <+: c :: t) ∧ Bare ds (c == '\\' && !escaped) t

theorem cut_nil_iff {escaped : Bool} {pos : Nat} :
    Cut rules escaped pos t [] ↔ Bare (marks rules) escaped t := by
  constructor
  · intro h
    generalize hhs : ([] : List (Hit Text)) = hs at h
    induction h with
    | done => trivial
    | skip hno _ ih => exact ⟨hno, ih hhs⟩
    | mark => cases hhs
  · intro h
    induction t generalizing escaped pos with
    | nil => exact .done
    | cons c t ih => exact .skip h.1 (ih h.2)

/-- A delimiter, the **first** of a text, with the gap in front of it and what follows it. -/
structure First (rules : List DelimiterRule) (escaped : Bool) (pos : Nat) (t gap : Text)
    (h : Hit Text) (rest : Text) : Prop where
  eq : t = gap ++ (h.value ++ rest)
  bare : Bare (marks rules) escaped gap
  unescaped : escapedBehind escaped gap = false
  mem : h.value ∈ marks rules
  start : h.start = pos + gap.length
  stop : h.stop = h.start + h.value.length
  read : token (tokens rules) [] (h.value ++ rest) = some (h.value, rest)

theorem Cut.exists_first {escaped : Bool} {pos : Nat} {h : Hit Text}
    (hcut : Cut rules escaped pos t (h :: hs)) :
    ∃ gap rest, First rules escaped pos t gap h rest ∧ Cut rules false h.stop rest hs := by
  generalize hall : h :: hs = all at hcut
  induction hcut with
  | done => cases hall
  | @skip escaped pos c t _ hno _ ih =>
    obtain ⟨gap, rest, hfirst, hrest⟩ := ih hall
    refine ⟨c :: gap, rest, ⟨?_, ⟨?_, hfirst.bare⟩, hfirst.unescaped, hfirst.mem, ?_, hfirst.stop,
      hfirst.read⟩, hrest⟩
    · rw [hfirst.eq, List.cons_append]
    · intro hescaped d hd hbegins
      refine hno hescaped d hd (hbegins.trans ?_)
      rw [hfirst.eq]
      exact List.prefix_append (c :: gap) _
    · rw [hfirst.start, List.length_cons]
      omega
  | @mark pos d t _ hd hread hcut =>
    cases hall
    exact ⟨[], t, ⟨rfl, trivial, rfl, hd, rfl, rfl, hread⟩, hcut⟩

/-- In a text where no delimiter stands unescaped, all that stand there are escaped. -/
theorem Bare.isEscaped {ds : List Text} (h : Bare ds false t) (hd : d ∈ ds) (hne : d ≠ [])
    {p : Nat} (hp : d <+: t.drop p) : Scan.isEscaped t p = true := by
  -- the characters in front of the text are carried along
  suffices hbehind : ∀ (p : Nat) (before t : Text), Bare ds (Scan.escapes before) t →
      d <+: t.drop p → Scan.escapes ((t.take p).reverse ++ before) = true by
    have := hbehind p [] t h hp
    rwa [List.append_nil] at this
  intro p
  induction p with
  | zero =>
    intro before t h hp
    cases t with
    | nil => exact absurd (List.prefix_nil.mp hp) hne
    | cons c t =>
      by_contra hescaped
      exact h.1 (Bool.eq_false_iff.mpr hescaped) d hd hp
  | succ p ih =>
    intro before t h hp
    cases t with
    | nil => exact absurd (List.prefix_nil.mp (by simpa using hp)) hne
    | cons c t =>
      have hrest : Bare ds (Scan.escapes (c :: before)) t := by
        rw [Scan.escapes_cons]
        exact h.2
      simpa using ih (c :: before) t hrest hp

/-- A piece of a text with no delimiters has none, whether or not its first character is
    escaped in the text. -/
theorem Bare.infix {ds : List Text} {escaped : Bool} {u v : Text}
    (h : Bare ds escaped (u ++ (t ++ v))) : Bare ds (escapedBehind escaped u) t := by
  induction u generalizing escaped with
  | cons c u ih => exact ih h.2
  | nil =>
    rw [List.nil_append] at h
    induction t generalizing escaped with
    | nil => trivial
    | cons c t ih =>
      refine ⟨fun hescaped d hd hbegins => ?_, ih h.2⟩
      exact h.1 hescaped d hd (hbegins.trans (List.prefix_append (c :: t) v))

/-! ### Cuts put together -/

namespace Cut

variable {escaped : Bool} {pos : Nat} {s : Text}

theorem moved (h : Cut rules escaped pos t hs) {pos' : Nat} (heq : pos = pos') :
    Cut rules escaped pos' t hs := heq ▸ h

/-- Two texts joined.  A delimiter could lie across their border only if another one stood in
    the part that is in the first text. -/
theorem append (hbare : Bare (marks rules) escaped s)
    (hacross : ∀ x y, x ≠ [] → y ≠ [] → x ++ y ∈ marks rules → y.head? = t.head? →
      ∃ m ∈ marks rules, m <+: x)
    (ht : Cut rules (escapedBehind escaped s) (pos + s.length) t hs) :
    Cut rules escaped pos (s ++ t) hs := by
  induction s generalizing escaped pos with
  | nil => exact ht
  | cons c s ih =>
    have hpos : pos + (c :: s).length = pos + 1 + s.length := by
      rw [List.length_cons]
      omega
    have hrest : Cut rules (c == '\\' && !escaped) (pos + 1) (s ++ t) hs :=
      ih hbare.2 (ht.moved hpos)
    rw [List.cons_append]
    refine .skip (fun hescaped d hd hbegins => ?_) hrest
    rw [← List.cons_append] at hbegins
    rcases Nat.le_total d.length (c :: s).length with hle | hle
    · exact hbare.1 hescaped d hd
        (List.prefix_of_prefix_length_le hbegins (List.prefix_append _ t) hle)
    · obtain ⟨y, rfl⟩ := List.prefix_of_prefix_length_le (List.prefix_append _ t) hbegins hle
      have hy : y <+: t := (List.prefix_append_right_inj _).mp hbegins
      cases y with
      | nil =>
        rw [List.append_nil] at hd
        exact hbare.1 hescaped _ hd (List.prefix_refl _)
      | cons b y =>
        obtain ⟨after, rfl⟩ := hy
        obtain ⟨m, hm, hbegins'⟩ :=
          hacross (c :: s) (b :: y) (List.cons_ne_nil _ _) (List.cons_ne_nil _ _) hd rfl
        exact hbare.1 hescaped m hm hbegins'

theorem append_of_heads (hheads : ∀ c ∈ s, ∀ d ∈ marks rules, d.head? ≠ some c)
    (hne : ∀ d ∈ marks rules, d ≠ [])
    (ht : Cut rules (escapedBehind escaped s) (pos + s.length) t hs) :
    Cut rules escaped pos (s ++ t) hs := by
  induction s generalizing escaped pos with
  | nil => exact ht
  | cons c s ih =>
    have hpos : pos + (c :: s).length = pos + 1 + s.length := by
      rw [List.length_cons]
      omega
    have hrest : Cut rules (c == '\\' && !escaped) (pos + 1) (s ++ t) hs :=
      ih (fun b hb => hheads b (List.mem_cons_of_mem c hb)) (ht.moved hpos)
    rw [List.cons_append]
    refine .skip (fun _ d hd hbegins => ?_) hrest
    obtain ⟨b, d', rfl⟩ := List.exists_cons_of_ne_nil (hne d hd)
    have hb : b = c := (List.cons_prefix_cons.mp hbegins).1
    exact hheads c List.mem_cons_self _ hd (by rw [hb]; rfl)

end Cut

/-- Writing of which no character stands in a delimiter, and which escapes nothing. -/
structure Foreign (rules : List DelimiterRule) (m : Text) : Prop where
  ne_nil : m ≠ []
  last : m.getLast ne_nil ≠ '\\'
  chars : ∀ c ∈ m, ∀ d ∈ marks rules, c ∉ d

instance decidableForeign (rules : List DelimiterRule) (m : Text) :
    Decidable (Foreign rules m) :=
  letI : Decidable (∀ c ∈ m, ∀ d ∈ marks rules, c ∉ d) := List.decidableBAll _ m
  decidable_of_iff (∃ h : m ≠ [], m.getLast h ≠ '\\' ∧ ∀ c ∈ m, ∀ d ∈ marks rules, c ∉ d)
    ⟨fun ⟨h, hlast, hchars⟩ => ⟨h, hlast, hchars⟩, fun h => ⟨h.ne_nil, h.last, h.chars⟩⟩

/-- Foreign writing behind a text without delimiters begins no delimiter and ends none. -/
theorem Foreign.cut (hformed : ∀ d ∈ marks rules, Formed d) {m : Text} (hm : Foreign rules m)
    {escaped : Bool} {pos : Nat} {s : Text} (hbare : Bare (marks rules) escaped s)
    (ht : Cut rules false (pos + s.length + m.length) t hs) :
    Cut rules escaped pos (s ++ (m ++ t)) hs := by
  refine Cut.append hbare ?_ (Cut.append_of_heads ?_ (fun d hd => (hformed d hd).ne_nil) ?_)
  · intro x y _ hy hxy hhead
    obtain ⟨b, m', rfl⟩ := List.exists_cons_of_ne_nil hm.ne_nil
    obtain ⟨b', y', rfl⟩ := List.exists_cons_of_ne_nil hy
    cases hhead
    exact absurd (by simp) (hm.chars b List.mem_cons_self _ hxy)
  · intro c hc d hd hhead
    exact hm.chars c hc d hd (List.mem_of_head? hhead)
  · rw [Scan.escapedBehind_of_getLast hm.ne_nil hm.last]
    exact ht

end TexMark.Delimiter
