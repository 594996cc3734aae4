/-
  TexMark/Proofs/Environment/Sketch.lean
  ======================================
  **Texts with numbers in them.**  A *sketch* is a text in which the numbers of equations are left
  open (`Sketch.filled`).  A text that depends on how numbers are written **carries** some numbers
  if one sketch gives it for all ways of writing them (`Carries`).  So the numbers that are carried
  stand in the text once each, in this order, whatever else stands there.

  What the converters do with a text never looks into a number that stands there unescaped:

    * `Carries.strip`, `Carries.lines`, `CarriesAll.unlines` — margins and lines;
    * `Carries.display` — display formulas;
    * `word?_isSome` — a word is found whatever the numbers are.
-/
import Mathlib.Data.List.Chain
import TexMark.Proofs.Delimiter.Display
import TexMark.Proofs.Rows.Reflow

namespace TexMark

open Text (isBlank strip)

/-- A way of writing numbers. -/
abbrev Numerals := Nat → Text

/-- No character of a numeral ends a line, a column or a group, and none begins a command. -/
def Numerals.Plain (write : Numerals) : Prop :=
  ∀ n, ∀ c ∈ write n, Rows.IsPlain c ∧ c ≠ '&' ∧ c ≠ '\n'

theorem Numerals.plain_ofNat : Numerals.Plain Text.ofNat := by
  intro n c hc
  have hdigit : c.isDigit = true := Nat.isDigit_of_mem_toDigits (by decide) (by decide) hc
  have hne {d : Char} (hd : d.isDigit = false) : c ≠ d := by
    rintro rfl
    rw [hdigit] at hd
    cases hd
  exact ⟨⟨hne rfl, hne rfl, hne rfl⟩, hne rfl, hne rfl⟩

/-- A piece of a sketch. -/
inductive Glyph where
  | char (c : Char)
  /-- The command that shows a number. -/
  | tag (n : Nat)
deriving DecidableEq

namespace Glyph

def text (write : Numerals) : Glyph → Text
  | char c => [c]
  | tag n => "\\tag" ++ Text.braced (write n)

def number? : Glyph → Option Nat
  | char _ => none
  | tag n => some n

/-- Is a glyph a character of a class? -/
def among (p : Char → Bool) : Glyph → Bool
  | char c => p c
  | tag _ => false

end Glyph

/-- A text in which the numbers are left open. -/
abbrev Sketch := List Glyph

namespace Sketch

variable {write : Numerals} {σ τ : Sketch} {first : Sketch} {rest : List Sketch} {t u : Text}

def filled (write : Numerals) (σ : Sketch) : Text := σ.flatMap (Glyph.text write)

/-- A text without numbers. -/
def ofText (t : Text) : Sketch := t.map Glyph.char

/-- The numbers of a sketch. -/
def tags (σ : Sketch) : List Nat := σ.filterMap Glyph.number?

/-- No backslash stands in front of a number, so that none is escaped. -/
def Settled (σ : Sketch) : Prop :=
  σ.IsChain fun g g' => g = .char '\\' → g'.number? = none

/-- The sketch does not begin with a number. -/
def Led (σ : Sketch) : Prop := ∀ g ∈ σ.head?, g.number? = none

/-- Behind its blanks, the sketch does not begin with a number. -/
def Guarded (σ : Sketch) : Prop := Led (σ.dropWhile (Glyph.among isBlank))

@[simp] theorem filled_nil : filled write [] = [] := rfl

@[simp] theorem filled_cons (g : Glyph) (σ : Sketch) :
    filled write (g :: σ) = g.text write ++ filled write σ := rfl

@[simp] theorem filled_append (σ τ : Sketch) :
    filled write (σ ++ τ) = filled write σ ++ filled write τ := List.flatMap_append

@[simp] theorem filled_ofText (t : Text) : filled write (ofText t) = t := by
  induction t with
  | nil => rfl
  | cons c t ih => exact congrArg (c :: ·) ih

@[simp] theorem tags_nil : tags [] = [] := rfl

@[simp] theorem tags_char (c : Char) (σ : Sketch) : tags (.char c :: σ) = tags σ := rfl

@[simp] theorem tags_tag (n : Nat) (σ : Sketch) : tags (.tag n :: σ) = n :: tags σ := rfl

@[simp] theorem tags_append (σ τ : Sketch) : tags (σ ++ τ) = tags σ ++ tags τ :=
  List.filterMap_append

@[simp] theorem tags_ofText (t : Text) : tags (ofText t) = [] := by
  induction t with
  | nil => rfl
  | cons c t ih => exact ih

theorem tags_eq_nil {p : Char → Bool} (h : ∀ g ∈ σ, g.among p) : tags σ = [] := by
  refine List.filterMap_eq_nil_iff.mpr fun g hg => ?_
  cases g with
  | char c => rfl
  | tag n => cases h _ hg

/-! ### Settled sketches -/

theorem settled_ofText (t : Text) : Settled (ofText t) := by
  induction t with
  | nil => exact .nil
  | cons c t ih =>
    refine List.IsChain.cons ih fun g hg _ => ?_
    obtain ⟨d, -, rfl⟩ := List.mem_map.mp (List.mem_of_mem_head? hg)
    rfl

theorem led_ofText (t : Text) : Led (ofText t) := by
  intro g hg
  obtain ⟨c, -, rfl⟩ := List.mem_map.mp (List.mem_of_mem_head? hg)
  rfl

/-- A sketch that begins with no number may stand behind any other. -/
theorem Settled.append (hσ : Settled σ) (hτ : Settled τ) (hled : Led τ) : Settled (σ ++ τ) :=
  List.IsChain.append hσ hτ fun _ _ g hg _ => hled g hg

/-- Any sketch may stand behind a text that does not end with a backslash. -/
theorem Settled.behind (hσ : Settled σ) (ht : t.getLast? ≠ some '\\') :
    Settled (ofText t ++ σ) := by
  refine List.IsChain.append (settled_ofText t) hσ fun g hg g' _ hbackslash => ?_
  rw [ofText, List.getLast?_map, hbackslash] at hg
  obtain ⟨c, hc, hchar⟩ := Option.map_eq_some_iff.mp hg
  cases hchar
  exact absurd hc ht

theorem Led.append (hσ : Led σ) (hτ : Led τ) : Led (σ ++ τ) := by
  cases σ with
  | nil => exact hτ
  | cons g σ => exact hσ

theorem led_of_cons {c : Char} : Led (.char c :: σ) := by
  intro g hg
  cases hg
  rfl

/-- Parts of a sketch one behind the other. -/
theorem settled_flatMap {α : Type} {parts : List α} {f : α → Sketch}
    (h : ∀ x ∈ parts, Settled (f x) ∧ Led (f x)) :
    Settled (parts.flatMap f) ∧ Led (parts.flatMap f) := by
  induction parts with
  | nil => exact ⟨.nil, nofun⟩
  | cons x parts ih =>
    rw [List.forall_mem_cons] at h
    obtain ⟨hrest, hled⟩ := ih h.2
    exact ⟨h.1.1.append hrest hled, h.1.2.append hled⟩

/-! ### Margins -/

/-- No number is dropped from the beginning with characters of a class. -/
theorem filled_dropWhile {p : Char → Bool} (hp : p '\\' = false) (write : Numerals)
    (σ : Sketch) : (filled write σ).dropWhile p = filled write (σ.dropWhile (Glyph.among p)) := by
  induction σ with
  | nil => rfl
  | cons g σ ih =>
    cases g with
    | char c =>
      by_cases hc : p c
      · simpa [Glyph.text, Glyph.among, hc] using ih
      · simp [Glyph.text, Glyph.among, hc]
    | tag n => simp [Glyph.text, Glyph.among, hp]

/-- No number is dropped from the end with characters of a class. -/
theorem filled_rdropWhile {p : Char → Bool} (hp : p '}' = false) (write : Numerals)
    (σ : Sketch) : (filled write σ).rdropWhile p = filled write (σ.rdropWhile (Glyph.among p)) := by
  induction σ using List.reverseRecOn with
  | nil => rfl
  | append_singleton σ g ih =>
    rw [List.rdropWhile_concat, filled_append]
    cases g with
    | char c =>
      have hchar : filled write [Glyph.char c] = [c] := rfl
      rw [hchar, List.rdropWhile_concat]
      by_cases hc : p c
      · simpa [Glyph.among, hc] using ih
      · simp [Glyph.among, hc, Glyph.text]
    | tag n =>
      have htag : filled write [Glyph.tag n] = ("\\tag" ++ '{' :: write n) ++ ['}'] := by
        simp [Glyph.text, Text.braced]
      rw [htag, ← List.append_assoc, List.rdropWhile_concat, if_neg (by simp [hp])]
      simp [Glyph.among, Glyph.text, Text.braced]

theorem tags_dropWhile (p : Char → Bool) (σ : Sketch) :
    tags (σ.dropWhile (Glyph.among p)) = tags σ := by
  have hdropped : tags (σ.takeWhile (Glyph.among p)) = [] :=
    tags_eq_nil fun g hg => List.mem_takeWhile_imp hg
  conv_rhs => rw [← List.takeWhile_append_dropWhile (p := Glyph.among p) (l := σ)]
  rw [tags_append, hdropped, List.nil_append]

theorem tags_rdropWhile (p : Char → Bool) (σ : Sketch) :
    tags (σ.rdropWhile (Glyph.among p)) = tags σ := by
  have hdropped : tags (σ.rtakeWhile (Glyph.among p)) = [] :=
    tags_eq_nil fun g hg => List.mem_rtakeWhile_imp hg
  conv_rhs => rw [← List.rdropWhile_append_rtakeWhile (p := Glyph.among p) (l := σ)]
  rw [tags_append, hdropped, List.append_nil]

/-- A sketch without the blanks around it. -/
def strip (σ : Sketch) : Sketch :=
  (σ.dropWhile (Glyph.among isBlank)).rdropWhile (Glyph.among isBlank)

theorem filled_strip (write : Numerals) (σ : Sketch) :
    filled write (strip σ) = Text.strip (filled write σ) := by
  rw [strip, ← filled_rdropWhile (by decide), ← filled_dropWhile (by decide)]
  rfl

theorem tags_strip (σ : Sketch) : tags (strip σ) = tags σ := by
  rw [strip, tags_rdropWhile, tags_dropWhile]

theorem Settled.strip (h : Settled σ) : Settled (strip σ) :=
  List.IsChain.prefix (List.IsChain.suffix h (List.dropWhile_suffix _)) (List.rdropWhile_prefix _ _)

/-! ### Beginnings -/

theorem guarded_ofText (t : Text) : Guarded (ofText t) := by
  intro g hg
  obtain ⟨c, -, rfl⟩ := List.mem_map.mp
    ((List.dropWhile_suffix _).subset (List.mem_of_mem_head? hg))
  rfl

theorem Guarded.append (hσ : Guarded σ) (hτ : Guarded τ) : Guarded (σ ++ τ) := by
  rw [Guarded, List.dropWhile_append]
  split
  · exact hτ
  · rename_i hne
    cases hdrop : σ.dropWhile (Glyph.among isBlank) with
    | nil => simp [hdrop] at hne
    | cons g ρ =>
      rw [Guarded, hdrop] at hσ
      exact hσ

theorem Guarded.led (h : Guarded σ) : Led σ := by
  cases σ with
  | nil => nofun
  | cons g σ =>
    cases g with
    | char c => exact led_of_cons
    | tag n => exact h

theorem Guarded.strip (h : Guarded σ) : Guarded (strip σ) := by
  have hkeeps : σ.strip <+: σ.dropWhile (Glyph.among isBlank) := List.rdropWhile_prefix _ _
  cases hstrip : σ.strip with
  | nil => nofun
  | cons g ρ =>
    rw [hstrip] at hkeeps
    obtain ⟨more, hmore⟩ := hkeeps
    have hblank := List.head_dropWhile_not (Glyph.among isBlank) (l := σ)
      (by rw [← hmore]; exact List.cons_ne_nil g _)
    rw [Guarded, ← hmore] at h
    simp only [← hmore, List.cons_append, List.head_cons] at hblank
    rw [Guarded, List.dropWhile_cons_of_neg (by simp [hblank])]
    exact h

/-! ### Parts between separators -/

/-- What stands between the occurrences of a glyph. -/
theorem exists_parts (sep : Glyph) (σ : Sketch) : ∃ (first : Sketch) (rest : List Sketch),
    σ = first ++ rest.flatMap (sep :: ·) ∧ sep ∉ first ∧ ∀ ρ ∈ rest, sep ∉ ρ := by
  induction σ with
  | nil => exact ⟨[], [], rfl, nofun, nofun⟩
  | cons g σ ih =>
    obtain ⟨first, rest, rfl, hfirst, hrest⟩ := ih
    by_cases hg : g = sep
    · subst hg
      exact ⟨[], first :: rest, by simp, nofun, List.forall_mem_cons.mpr ⟨hfirst, hrest⟩⟩
    · exact ⟨g :: first, rest, rfl, by simpa [Ne.symm hg] using hfirst, hrest⟩

/-- The parts of a settled sketch are settled. -/
theorem Settled.parts (sep : Sketch) (h : Settled (first ++ rest.flatMap (sep ++ ·))) :
    ∀ ρ ∈ first :: rest, Settled ρ := by
  intro ρ hρ
  rcases List.mem_cons.mp hρ with rfl | hρ
  · exact List.IsChain.prefix h (List.prefix_append ρ _)
  · obtain ⟨before, after, rfl⟩ := List.append_of_mem hρ
    refine List.IsChain.infix h ⟨first ++ before.flatMap (sep ++ ·) ++ sep,
      after.flatMap (sep ++ ·), ?_⟩
    simp

theorem tags_parts (sep : Text) :
    tags (first ++ rest.flatMap (ofText sep ++ ·)) = (first :: rest).flatMap tags := by
  have hrest : tags (rest.flatMap (ofText sep ++ ·)) = rest.flatMap tags := by
    induction rest with
    | nil => rfl
    | cons ρ rest ih => simp [ih]
  rw [tags_append, hrest, List.flatMap_cons]

theorem filled_parts (sep : Text) :
    filled write (first ++ rest.flatMap (ofText sep ++ ·)) =
      filled write first ++ (rest.map (filled write)).flatMap (sep ++ ·) := by
  have hrest : filled write (rest.flatMap (ofText sep ++ ·)) =
      (rest.map (filled write)).flatMap (sep ++ ·) := by
    induction rest with
    | nil => rfl
    | cons ρ rest ih => simp [ih]
  rw [filled_append, hrest]

theorem not_mem_filled {c : Char} (hc : c ∉ "\\tag{}".toList) (hplain : ∀ n, c ∉ write n)
    (hσ : Glyph.char c ∉ σ) : c ∉ filled write σ := by
  intro hmem
  obtain ⟨g, hg, hgc⟩ := List.mem_flatMap.mp hmem
  cases g with
  | char d =>
    rw [Glyph.text, List.mem_singleton] at hgc
    exact hσ (hgc ▸ hg)
  | tag n =>
    have := hplain n
    simp_all [Glyph.text, Text.braced]

/-! ### Words -/

/-- A word is no part of a number. -/
theorem isPrefix_filled_iff (write : Numerals) {word : Text} (hword : '\\' ∉ word) :
    word <+: filled write σ ↔ ofText word <+: σ := by
  induction word generalizing σ with
  | nil => exact iff_of_true List.nil_prefix List.nil_prefix
  | cons c word ih =>
    rw [List.mem_cons, not_or] at hword
    rcases σ with _ | ⟨d | n, σ⟩
    · simp [ofText]
    · have htail := @ih σ hword.2
      simp only [filled_cons, Glyph.text, List.singleton_append, List.cons_prefix_cons, htail,
        ofText, List.map_cons, Glyph.char.injEq]
    · refine iff_of_false (fun h => hword.1 ?_) fun h => ?_
      · exact (List.cons_prefix_cons.mp h).1.symm
      · cases (List.cons_prefix_cons.mp h).1

theorem nameEnds_filled (write write' : Numerals) (σ : Sketch) :
    Markup.nameEnds (filled write σ) = Markup.nameEnds (filled write' σ) := by
  rcases σ with _ | ⟨c | n, σ⟩ <;> rfl

theorem word?_isSome {name : Text} (hname : '\\' ∉ name) (write write' : Numerals) (σ : Sketch)
    (h : (Markup.word? name ('\\' :: filled write σ)).isSome) :
    (Markup.word? name ('\\' :: filled write' σ)).isSome := by
  obtain ⟨rest, hrest⟩ := Option.isSome_iff_exists.mp h
  obtain ⟨hcommand, hends⟩ := Option.filter_eq_some_iff.mp hrest
  have heq := (List.cons.inj (Text.dropPrefix?_eq_some_iff.mp hcommand)).2
  obtain ⟨τ, rfl⟩ := (isPrefix_filled_iff write hname).mp ⟨rest, heq.symm⟩
  rw [filled_append, filled_ofText] at heq
  rw [← List.append_cancel_left heq, nameEnds_filled write write'] at hends
  have hcommand' : Markup.command? name ('\\' :: filled write' (ofText name ++ τ)) =
      some (filled write' τ) := by
    rw [filled_append, filled_ofText]
    exact Text.dropPrefix?_eq_some_iff.mpr rfl
  rw [Markup.word?, hcommand', Option.filter_some, if_pos hends]
  rfl

end Sketch

open Sketch

/-! ### Texts that carry numbers -/

/-- A text that depends on how numbers are written **carries** numbers if it is one sketch. -/
def Carries (d : Numerals → Text) (ns : List Nat) : Prop :=
  ∃ σ, Settled σ ∧ tags σ = ns ∧ ∀ write : Numerals, write.Plain → d write = filled write σ

/-- Texts that carry numbers one after the other. -/
def CarriesAll (ds : Numerals → List Text) (ns : List Nat) : Prop :=
  ∃ σs : List Sketch, (∀ σ ∈ σs, Settled σ) ∧ σs.flatMap tags = ns ∧
    ∀ write : Numerals, write.Plain → ds write = σs.map (filled write)

section

variable {d e : Numerals → Text} {ds : Numerals → List Text} {ns ms : List Nat}

theorem carries_filled {σ : Sketch} (h : Settled σ) :
    Carries (fun write => filled write σ) (tags σ) :=
  ⟨σ, h, rfl, fun _ _ => rfl⟩

theorem Carries.congr (h : Carries d ns)
    (heq : ∀ write : Numerals, write.Plain → e write = d write) : Carries e ns := by
  obtain ⟨σ, hσ, hns, hd⟩ := h
  exact ⟨σ, hσ, hns, fun write hwrite => (heq write hwrite).trans (hd write hwrite)⟩

theorem Carries.strip (h : Carries d ns) : Carries (fun write => strip (d write)) ns := by
  obtain ⟨σ, hσ, rfl, hd⟩ := h
  refine ⟨σ.strip, hσ.strip, tags_strip σ, fun write hwrite => ?_⟩
  dsimp only
  rw [hd write hwrite, filled_strip]

theorem Carries.stripEnd (h : Carries d ns) :
    Carries (fun write => Text.stripEnd (d write)) ns := by
  obtain ⟨σ, hσ, rfl, hd⟩ := h
  refine ⟨_, List.IsChain.prefix hσ (List.rdropWhile_prefix _ _), tags_rdropWhile isBlank σ, ?_⟩
  intro write hwrite
  dsimp only
  rw [hd write hwrite, ← filled_rdropWhile (by decide)]
  rfl

/-- A text in front, and a text behind. -/
theorem Carries.between (h : Carries d ns) {u : Text} (hu : u.getLast? ≠ some '\\') (v : Text) :
    Carries (fun write => u ++ d write ++ v) ns := by
  obtain ⟨σ, hσ, rfl, hd⟩ := h
  have hall : Settled (ofText u ++ σ ++ ofText v) :=
    (hσ.behind hu).append (settled_ofText v) (led_ofText v)
  refine ⟨_, hall, by simp, ?_⟩
  intro write hwrite
  simp [hd write hwrite]

/-- Every text has its own sketch, and so has what is made of it. -/
theorem CarriesAll.map {f : Text → Text} (h : CarriesAll ds ns)
    (hf : ∀ σ, Settled σ → filled Text.ofNat σ ∈ ds Text.ofNat →
      Carries (fun write => f (filled write σ)) (tags σ)) :
    CarriesAll (fun write => (ds write).map f) ns := by
  obtain ⟨σs, hσs, rfl, hds⟩ := h
  have hmem (σ : Sketch) (hσ : σ ∈ σs) : filled Text.ofNat σ ∈ ds Text.ofNat := by
    rw [hds _ Numerals.plain_ofNat]
    exact List.mem_map_of_mem hσ
  choose! g hg using hf
  have hrow (σ : Sketch) (hσ : σ ∈ σs) := hg σ (hσs σ hσ) (hmem σ hσ)
  refine ⟨σs.map g, ?_, ?_, fun write hwrite => ?_⟩
  · rw [List.forall_mem_map]
    exact fun σ hσ => (hrow σ hσ).1
  · rw [List.flatMap_map]
    exact List.flatMap_congr fun σ hσ => (hrow σ hσ).2.1
  · dsimp only
    rw [hds write hwrite, List.map_map, List.map_map]
    exact List.map_congr_left fun σ hσ => (hrow σ hσ).2.2 write hwrite

/-- A text alone. -/
theorem carriesAll_const (ts : List Text) : CarriesAll (fun _ => ts) [] := by
  refine ⟨ts.map ofText, ?_, ?_, fun write _ => ?_⟩
  · rw [List.forall_mem_map]
    exact fun t _ => settled_ofText t
  · simp
  · simp [Function.comp_def]

theorem CarriesAll.append {es : Numerals → List Text} (h : CarriesAll ds ns)
    (h' : CarriesAll es ms) : CarriesAll (fun write => ds write ++ es write) (ns ++ ms) := by
  obtain ⟨σs, hσs, rfl, hds⟩ := h
  obtain ⟨τs, hτs, rfl, hes⟩ := h'
  refine ⟨σs ++ τs, List.forall_mem_append.mpr ⟨hσs, hτs⟩, List.flatMap_append, ?_⟩
  intro write hwrite
  dsimp only
  rw [hds write hwrite, hes write hwrite, List.map_append]

theorem CarriesAll.cons (h : Carries d ns) (h' : CarriesAll ds ms) :
    CarriesAll (fun write => d write :: ds write) (ns ++ ms) := by
  obtain ⟨σ, hσ, rfl, hd⟩ := h
  obtain ⟨σs, hσs, rfl, hds⟩ := h'
  refine ⟨σ :: σs, List.forall_mem_cons.mpr ⟨hσ, hσs⟩, rfl, fun write hwrite => ?_⟩
  dsimp only
  rw [hd write hwrite, hds write hwrite, List.map_cons]

/-- The first of some texts, and the others. -/
theorem CarriesAll.uncons (h : CarriesAll ds ns) :
    (∀ write : Numerals, write.Plain → ds write = []) ∨
      ∃ d es ms ms', Carries d ms ∧ CarriesAll es ms' ∧ ns = ms ++ ms' ∧
        ∀ write : Numerals, write.Plain → ds write = d write :: es write := by
  obtain ⟨σs, hσs, rfl, hds⟩ := h
  cases σs with
  | nil => exact .inl hds
  | cons σ σs =>
    rw [List.forall_mem_cons] at hσs
    exact .inr ⟨_, _, _, _, carries_filled hσs.1, ⟨σs, hσs.2, rfl, fun _ _ => rfl⟩, rfl, hds⟩

/-- Texts are left out if all of them are empty, whatever the numbers are. -/
theorem CarriesAll.filter (h : CarriesAll ds ns) :
    CarriesAll (fun write => (ds write).filter fun l => !l.isEmpty) ns := by
  obtain ⟨σs, hσs, rfl, hds⟩ := h
  have hempty (write : Numerals) (σ : Sketch) : (filled write σ).isEmpty = σ.isEmpty := by
    cases σ with
    | nil => rfl
    | cons g σ => cases g <;> rfl
  refine ⟨σs.filter fun σ => !σ.isEmpty, fun σ hσ => hσs σ (List.mem_of_mem_filter hσ), ?_, ?_⟩
  · clear hσs hds
    induction σs with
    | nil => rfl
    | cons σ σs ih => cases σ <;> simp_all
  · intro write hwrite
    dsimp only
    rw [hds write hwrite, List.filter_map]
    simp only [Function.comp_def, hempty]

/-- **Lines** end between numbers only. -/
theorem Carries.lines (h : Carries d ns) : CarriesAll (fun write => Text.lines (d write)) ns := by
  obtain ⟨σ, hσ, rfl, hd⟩ := h
  obtain ⟨first, rest, rfl, hfirst, hrest⟩ := exists_parts (.char '\n') σ
  refine ⟨first :: rest, hσ.parts (ofText ['\n']), ?_, fun write hwrite => ?_⟩
  · exact (tags_parts ['\n']).symm
  · have hfeed : ∀ ρ ∈ first :: rest, '\n' ∉ filled write ρ := by
      intro ρ hρ
      refine not_mem_filled (by decide) (fun n hn => (hwrite n _ hn).2.2 rfl) ?_
      rcases List.mem_cons.mp hρ with rfl | hρ
      · exact hfirst
      · exact hrest ρ hρ
    have hlines : Text.lines (Text.unlines (filled write first :: rest.map (filled write))) =
        filled write first :: rest.map (filled write) :=
      Text.lines_unlines (by simpa using hfeed)
    dsimp only
    rw [Text.unlines_cons] at hlines
    rw [hd write hwrite, List.map_cons, ← hlines]
    exact congrArg Text.lines (filled_parts ['\n'])

/-- Texts one behind the other, with something done to each of them but the first. -/
def joinedBy (f : Text → Text) : List Text → Text
  | [] => []
  | first :: rest => first ++ rest.flatMap f

theorem CarriesAll.joinedBy {f : Text → Text} (h : CarriesAll ds ns)
    (hf : ∀ σ, Settled σ → ∃ τ, Settled τ ∧ Led τ ∧ tags τ = tags σ ∧
      ∀ write : Numerals, write.Plain → f (filled write σ) = filled write τ) :
    Carries (fun write => joinedBy f (ds write)) ns := by
  obtain ⟨σs, hσs, rfl, hds⟩ := h
  choose! g hg using hf
  cases σs with
  | nil =>
    refine ⟨[], .nil, rfl, fun write hwrite => ?_⟩
    dsimp only
    rw [hds write hwrite]
    rfl
  | cons first rest =>
    rw [List.forall_mem_cons] at hσs
    obtain ⟨hrest, hled⟩ : Settled (rest.flatMap g) ∧ Led (rest.flatMap g) :=
      settled_flatMap fun σ hσ => ⟨(hg σ (hσs.2 σ hσ)).1, (hg σ (hσs.2 σ hσ)).2.1⟩
    refine ⟨first ++ rest.flatMap g, hσs.1.append hrest hled, ?_, fun write hwrite => ?_⟩
    · have htags : tags (rest.flatMap g) = rest.flatMap tags := by
        rw [tags, List.filterMap_flatMap]
        exact List.flatMap_congr fun σ hσ => (hg σ (hσs.2 σ hσ)).2.2.1
      rw [tags_append, htags, List.flatMap_cons]
    · have hfilled : filled write (rest.flatMap g) = rest.flatMap fun σ => filled write (g σ) :=
        List.flatMap_assoc
      dsimp only
      rw [hds write hwrite, List.map_cons, filled_append, hfilled, TexMark.joinedBy,
        List.flatMap_map]
      exact congrArg (filled write first ++ ·)
        (List.flatMap_congr fun σ hσ => (hg σ (hσs.2 σ hσ)).2.2.2 write hwrite)

theorem CarriesAll.unlines (h : CarriesAll ds ns) :
    Carries (fun write => Text.unlines (ds write)) ns := by
  refine (h.joinedBy (f := ('\n' :: ·)) fun σ hσ => ?_).congr fun write _ => ?_
  · exact ⟨_, hσ.behind (t := ['\n']) (by decide), led_of_cons, rfl, fun _ _ => rfl⟩
  · cases ds write with
    | nil => rfl
    | cons first rest => exact Text.unlines_cons first rest

/-- **Display formulas** show the numbers that their contents carry. -/
theorem Carries.display (h : Carries d ns) :
    Carries (fun write => Delimiter.display (d write)) ns := by
  have hlines := (h.lines.map fun σ hσ _ => (carries_filled hσ).strip).filter
  have hclosed := hlines.append (carriesAll_const ["$$"])
  have hall := ((carriesAll_const ["$$"]).append hclosed).unlines
  rw [List.nil_append, List.append_nil] at hall
  exact hall.congr fun write _ => Delimiter.display_lines (d write)

end

end TexMark
