/-
  TexMark/Proofs/Environment/Numbering.lean
  =========================================
  **Numbers in the document.**  The numbers of equations are shown one after the other, and each
  stays in the text while the environments around it are converted:

    * `Forest.outcomeAs` — the outcome of a forest with numbers written in another way;
    * `exists_patches` — its edits are sketches that show the numbers of the closings, in order;
    * `numbers_of_resolve` — so a whole document is one sketch of the numbers from one on.

  The last asks that no row of a column environment loses what stands between a backslash and a
  number; `numbers_of_glued` is a document where this happens.
-/
import TexMark.Proofs.Environment.Fates
import TexMark.Proofs.Environment.SketchFrames

namespace TexMark.Environment

open Sketch

/-! ### Edits with numbers in them -/

/-- An edit whose numbers are left open. -/
structure Patch where
  start : Nat
  stop : Nat
  sketch : Sketch
  settled : Settled sketch
  guarded : Guarded sketch

def Patch.edit (write : Numerals) (p : Patch) : Edit := ⟨p.start, p.stop, filled write p.sketch⟩

/-- The numbers of some edits. -/
def Patch.numbers (patches : List Patch) : List Nat := patches.flatMap fun p => tags p.sketch

/-- A text without numbers. -/
def Patch.ofEdit (e : Edit) : Patch :=
  ⟨e.start, e.stop, ofText e.replacement, settled_ofText _, guarded_ofText _⟩

theorem Patch.edits_ofEdit (write : Numerals) (edits : List Edit) :
    (edits.map Patch.ofEdit).map (Patch.edit write) = edits := by
  rw [List.map_map]
  refine (List.map_congr_left fun e _ => ?_).trans (List.map_id edits)
  simp [Patch.edit, Patch.ofEdit]

theorem Patch.numbers_ofEdit (edits : List Edit) : Patch.numbers (edits.map Patch.ofEdit) = [] := by
  simp [Patch.numbers, Patch.ofEdit, List.flatMap_map]

/-- **Splicing** keeps the numbers of the edits. -/
theorem exists_splice (text : Text) (start stop : Nat) (patches : List Patch) :
    ∃ σ, Settled σ ∧ Guarded σ ∧ tags σ = Patch.numbers patches ∧ ∀ write,
      Edit.splice text start stop (patches.map (Patch.edit write)) = filled write σ := by
  induction patches generalizing start with
  | nil =>
    exact ⟨_, settled_ofText _, guarded_ofText _, tags_ofText _, fun write =>
      (filled_ofText (Text.slice text start stop)).symm⟩
  | cons p patches ih =>
    obtain ⟨σ, hσ, hguarded, htags, hsplice⟩ := ih p.stop
    have hbehind : Settled (p.sketch ++ σ) := p.settled.append hσ hguarded.led
    have hguard : Guarded (p.sketch ++ σ) := p.guarded.append hguarded
    refine ⟨ofText (Text.slice text start p.start) ++ (p.sketch ++ σ), ?_, ?_, ?_, fun write => ?_⟩
    · exact (settled_ofText _).append hbehind hguard.led
    · exact (guarded_ofText _).append hguard
    · rw [tags_append, tags_ofText, tags_append, htags]
      rfl
    · rw [List.map_cons, Edit.splice]
      dsimp only [Patch.edit]
      rw [filled_append, filled_append, filled_ofText, ← hsplice, List.append_assoc]

/-! ### Forests -/

namespace Forest

variable (settings : Settings) (text : Text)

/-- **The outcome of a forest with numbers written in another way**: its edits, and the counters
    behind it. -/
def outcomeAs (write : Numerals) : Forest → Counters → List Edit × Counters
  | nil, c => ([], c)
  | leaf e rest, c =>
    let (more, c') := rest.outcomeAs write (c.after settings text e)
    (leafEdits e ++ more, c')
  | environment opening closing inner rest, c =>
    let (frame, register) :=
      frameAt settings c.register text opening.name opening.start opening.stop
    let (within, c₁) := inner.outcomeAs write ⟨register, c.equations⟩
    let (shown, equations) := frame.convertedAs write settings c₁.register
      (Edit.splice text frame.contentStart closing.start within) c₁.equations
    let (more, c₂) := rest.outcomeAs write ⟨c₁.register, equations⟩
    (⟨opening.start, closing.stop, shown⟩ :: more, c₂)

theorem outcomeAs_ofNat (forest : Forest) (c : Counters) :
    forest.outcomeAs settings text Text.ofNat c = forest.outcome settings text c := by
  induction forest generalizing c with
  | nil => rfl
  | leaf e rest ih => rw [outcomeAs, ih, outcome_leaf]
  | environment opening closing inner rest ihInner ihRest =>
    rw [outcomeAs]
    dsimp only
    rw [ihInner, convertedAs_ofNat, ihRest, outcome_environment]
    rfl

/-- **The edits of a forest** show the numbers of its closings, each of them once and in their
    order, however numbers are written. -/
theorem exists_patches (forest : Forest) (c : Counters)
    (hclean : ∀ v ∈ forest.closings settings text c, v.frame.MergesCleanly v.content) :
    ∃ patches, Patch.numbers patches = Closing.numbers settings (forest.closings settings text c) ∧
      ∀ write : Numerals, write.Plain → forest.outcomeAs settings text write c =
        (patches.map (Patch.edit write), (forest.outcome settings text c).2) := by
  induction forest generalizing c with
  | nil => exact ⟨[], rfl, fun _ _ => rfl⟩
  | leaf e rest ih =>
    obtain ⟨patches, hnumbers, hedits⟩ := ih (c.after settings text e) hclean
    refine ⟨(leafEdits e).map Patch.ofEdit ++ patches, ?_, fun write hwrite => ?_⟩
    · rw [Patch.numbers, List.flatMap_append]
      exact (congrArg₂ (· ++ ·) (Patch.numbers_ofEdit _) hnumbers).trans (List.nil_append _)
    · rw [outcomeAs, hedits write hwrite, outcome_leaf, List.map_append, Patch.edits_ofEdit]
  | environment opening closing inner rest ihInner ihRest =>
    generalize hv : closingOf settings text opening closing inner c = v
    have hclosings : (environment opening closing inner rest).closings settings text c =
        inner.closings settings text (countersInside settings text opening c) ++
          v :: rest.closings settings text (v.after settings) := by
      rw [closings, hv]
    rw [hclosings] at hclean ⊢
    rw [List.forall_mem_append, List.forall_mem_cons] at hclean
    obtain ⟨hcleanInner, hcleanFrame, hcleanRest⟩ := hclean
    obtain ⟨within, hwithin, hinner⟩ := ihInner _ hcleanInner
    obtain ⟨more, hmore, hrest⟩ := ihRest _ hcleanRest
    obtain ⟨σ, hσ, hguarded, htags, hsplice⟩ :=
      exists_splice text v.frame.contentStart closing.start within
    have houtcome : inner.outcome settings text (countersInside settings text opening c) =
        (within.map (Patch.edit Text.ofNat), v.counters) := by
      rw [← outcomeAs_ofNat, hinner _ Numerals.plain_ofNat, ← hv]
      rfl
    have hcontent : v.content = filled Text.ofNat σ := by
      rw [← hsplice, ← hv]
      exact congrArg (fun r : List Edit × Counters => Edit.splice text _ closing.start r.1) houtcome
    rw [hcontent] at hcleanFrame
    obtain ⟨τ, k, hτ, hbegins, hshown, hconverted⟩ := exists_convertedAs hσ hguarded hcleanFrame
      v.counters.register v.counters.equations
    have hcount : (v.converted settings).2 = k := by
      rw [Closing.converted, ← convertedAs_ofNat, hcontent, hconverted _ Numerals.plain_ofNat]
    refine ⟨⟨opening.start, closing.stop, τ, hτ, hbegins⟩ :: more, ?_, fun write hwrite => ?_⟩
    · rw [Closing.numbers_append_cons, ← hwithin, ← hmore, ← htags, Closing.number?,
        Closing.tagged?, hcontent, ← hshown]
      rfl
    · have hunfold : (environment opening closing inner rest).outcomeAs settings text write c =
          let w := inner.outcomeAs settings text write (countersInside settings text opening c)
          let r := v.frame.convertedAs write settings w.2.register
            (Edit.splice text v.frame.contentStart closing.start w.1) w.2.equations
          let m := rest.outcomeAs settings text write ⟨w.2.register, r.2⟩
          (⟨opening.start, closing.stop, r.1⟩ :: m.1, m.2) := by
        rw [← hv]
        rfl
      have hbehind : v.after settings = ⟨v.counters.register, k⟩ := by rw [Closing.after, hcount]
      rw [hbehind] at hrest
      rw [hunfold, hinner write hwrite, congrArg Prod.snd houtcome]
      dsimp only
      rw [hsplice, hconverted write hwrite, hrest write hwrite, outcome_environment,
        environmentEdit_eq, hv]
      dsimp only
      rw [hbehind]
      rfl

end Forest

/-! ### Documents -/

/-- The formula of a numbered equation, as it stands in front of its number. -/
def IsNumbered (frame : Frame) (content body : Text) : Prop :=
  (frame.name = "equation" ∧ body = Text.strip content ∨
    frame.name = "multline" ∧
      body = wrapped "aligned" [] (Rows.join (indentedRows (Rows.split content)))) ∧
  isUnnumbered body = false

/-- With the default converters, unstarred equations get a number unless they forbid it. -/
theorem tagged?_eq_some_iff (extraNames : List Text) (convertLegacy : Bool) (frame : Frame)
    (content body : Text) :
    tagged? ⟨defaultConverters, extraNames, convertLegacy, true⟩ frame content = some body ↔
      IsNumbered frame content body := by
  rw [tagged?, Option.filter_eq_some_iff, IsNumbered]
  simp only [Bool.true_and, Bool.and_eq_true, Bool.not_eq_true', ← and_assoc]
  refine and_congr_left fun _ => ?_
  constructor
  · rintro ⟨hformula, hname⟩
    have hnames : frame.name = "equation" ∨ frame.name = "multline" := by
      simpa [numberedNames] using hname
    rcases hnames with heq | heq
    · rw [formula?, heq] at hformula
      exact .inl ⟨heq, (Option.some.inj hformula).symm⟩
    · rw [formula?, heq] at hformula
      exact .inr ⟨heq, (Option.some.inj hformula).symm⟩
  · rintro (⟨heq, rfl⟩ | ⟨heq, rfl⟩)
    · rw [formula?, heq]
      exact ⟨rfl, rfl⟩
    · rw [formula?, heq]
      exact ⟨rfl, rfl⟩

/-- The equations of a document are **numbered in turn**; `n` says which environments end. -/
structure NumberedInTurn (settings : Settings) (register : TheoremRegister) (text : Text)
    (n : Nesting) (resolved : Resolved) : Prop where
  /-- The closings are those of the environments that are converted, in the order of the ends. -/
  places : (n.forest.closings settings text ⟨register, 0⟩).map
      (fun v => (v.frame.name, v.frame.start)) =
    (n.log.flatMap Entry.converted).map fun p => (p.1.name, p.1.start)
  /-- Equations that allow it are shown with a number, the next one. -/
  shown : ∀ v ∈ n.forest.closings settings text ⟨register, 0⟩, ∀ body,
    IsNumbered v.frame v.content body →
      v.number? settings = some (v.counters.equations + 1) ∧ v.converted settings =
        (showTagged body (v.counters.equations + 1), v.counters.equations + 1)
  /-- Nothing else is counted. -/
  unshown : ∀ v ∈ n.forest.closings settings text ⟨register, 0⟩,
    (¬ ∃ body, IsNumbered v.frame v.content body) →
      v.number? settings = none ∧ (v.converted settings).2 = v.counters.equations
  /-- The numbers go from one to the number of equations that is left in the end. -/
  numbers : Closing.numbers settings (n.forest.closings settings text ⟨register, 0⟩) =
    List.range' 1 resolved.equations
  /-- They stand in the text, each of them once and in their order, however they are written. -/
  stays : (∀ v ∈ n.forest.closings settings text ⟨register, 0⟩,
      v.frame.MergesCleanly v.content) →
    ∃ σ, Settled σ ∧ tags σ = List.range' 1 resolved.equations ∧
      resolved.text = filled Text.ofNat σ ∧
      ∀ write : Numerals, write.Plain → Edit.splice text 0 text.length
        (n.forest.outcomeAs settings text write ⟨register, 0⟩).1 = filled write σ

/-- **The numbers of a document.**  With the default converters the equations of every document are
    numbered in turn. -/
theorem numbers_of_resolve (extraNames : List Text) (convertLegacy : Bool)
    (register : TheoremRegister) (text : Text) :
    let settings : Settings := ⟨defaultConverters, extraNames, convertLegacy, true⟩
    ∃ n resolved, Nesting.Reached (events settings register text) n ∧
      (resolve settings register 0 text).result = .ok resolved ∧
      NumberedInTurn settings register text n resolved := by
  intro settings
  obtain ⟨n, hn⟩ := Nesting.exists_reached (events settings register text)
  obtain ⟨hcount, hequations⟩ :=
    Forest.numbers_closings settings text n.forest ⟨register, 0⟩
  have hresult := (resolveUnder_of_reached settings text register 0 mayNest hn).1
  rw [← resolve_eq_run] at hresult
  have hnumbers : Closing.numbers settings (n.forest.closings settings text ⟨register, 0⟩) =
      List.range' 1 (n.forest.outcome settings text ⟨register, 0⟩).2.equations := by
    rw [hequations, Nat.zero_add]
    exact hcount
  refine ⟨n, _, hn, hresult, ?_, ?_, ?_, hnumbers, ?_⟩
  · rw [Forest.places_closings, hn.environments_forest]
  · intro v _ body hbody
    have htagged := (tagged?_eq_some_iff extraNames convertLegacy _ _ _).mpr hbody
    constructor
    · rw [Closing.number?, Closing.tagged?, htagged, Option.map_some]
    · rw [Closing.converted, Frame.converted, convert_of_tagged htagged]
  · intro v _ hnone
    have htagged : v.tagged? settings = none := by
      rw [Option.eq_none_iff_forall_ne_some]
      intro body hbody
      exact hnone ⟨body, (tagged?_eq_some_iff extraNames convertLegacy _ _ _).mp hbody⟩
    have hnumber : v.number? settings = none := by rw [Closing.number?, htagged, Option.map_none]
    refine ⟨hnumber, ?_⟩
    rw [v.equations_converted, hnumber]
    rfl
  · intro hclean
    obtain ⟨patches, hpatches, hedits⟩ := n.forest.exists_patches settings text _ hclean
    obtain ⟨σ, hσ, -, htags, hsplice⟩ := exists_splice text 0 text.length patches
    refine ⟨σ, hσ, ?_, ?_, fun write hwrite => ?_⟩
    · rw [htags, hpatches, hnumbers]
    · dsimp only
      rw [← Forest.outcomeAs_ofNat, hedits _ Numerals.plain_ofNat, hsplice]
    · rw [hedits write hwrite, hsplice]

/-- An equation in a column environment. -/
def numberedColumns : Text :=
  "\\begin{eqnarray}\\begin{equation}a\\end{equation}\\end{eqnarray}"

theorem forest_numberedColumns {n : Nesting}
    (h : Nesting.Reached (events numberingSettings .empty numberedColumns) n) :
    n.forest = .environment ⟨"eqnarray", 0, 16⟩ ⟨"eqnarray", 47, 61⟩
      (.environment ⟨"equation", 16, 32⟩ ⟨"equation", 33, 47⟩ .nil .nil) .nil := by
  have hevents : events numberingSettings .empty numberedColumns =
      [] ++ [Marker.opening ⟨"eqnarray", 0, 16⟩] ++ [Marker.opening ⟨"equation", 16, 32⟩] ++
        [Marker.closing ⟨"equation", 33, 47⟩] ++ [Marker.closing ⟨"eqnarray", 47, 61⟩] := rfl
  rw [hevents] at h
  rw [h.unique (.step (.step (.step (.step .start (.begins _ rfl)) (.begins _ rfl))
    (.converts _ rfl _ _ rfl rfl)) (.converts _ rfl _ _ rfl rfl))]
  rfl

theorem numbers_of_resolve_columns : ∃ resolved σ,
    (resolve numberingSettings .empty 0 numberedColumns).result = .ok resolved ∧
      Settled σ ∧ tags σ = List.range' 1 resolved.equations ∧
      resolved.text = filled Text.ofNat σ := by
  obtain ⟨n, resolved, hn, hresult, hnumbered⟩ :=
    numbers_of_resolve [] true .empty numberedColumns
  change NumberedInTurn numberingSettings .empty numberedColumns n resolved at hnumbered
  have hclosings : (n.forest.closings numberingSettings numberedColumns ⟨.empty, 0⟩).map
      (fun v => (v.frame.name, Rows.split v.content)) =
        [("equation".toList, ["a".toList]),
          ("eqnarray".toList, ["$$\na \\tag{1}\n$$".toList])] := by
    rw [forest_numberedColumns hn]
    rfl
  have hclean : ∀ v ∈ n.forest.closings numberingSettings numberedColumns ⟨.empty, 0⟩,
      v.frame.MergesCleanly v.content := by
    intro v hv _ row hrow a b t heq
    have hmem : (v.frame.name, Rows.split v.content) ∈ _ :=
      List.mem_map_of_mem (f := fun v => (v.frame.name, Rows.split v.content)) hv
    have hno : '&' ∉ row := by
      rw [hclosings] at hmem
      rcases List.mem_pair.mp hmem with hrows | hrows
      · rw [(Prod.mk.inj hrows).2, List.mem_singleton] at hrow
        rw [hrow]
        decide
      · rw [(Prod.mk.inj hrows).2, List.mem_singleton] at hrow
        rw [hrow]
        decide
    exact absurd (heq ▸ List.mem_append_right a List.mem_cons_self) hno
  obtain ⟨σ, hσ, htags, htext, -⟩ := hnumbered.stays hclean
  exact ⟨resolved, σ, hresult, hσ, htags, htext⟩

/-! ### A number that is lost -/

/-- Columns inside columns: the first merge brings a number next to its column mark, and the second
    takes the mark away. -/
def gluedNumber : Text :=
  "\\begin{gather}\\begin{eqnarray}a\\end. & " ++
    "\\begin{eqnarray}\\begin{equation}\\end.\\ &\\end{equation}& z" ++
    "\\end{eqnarray}\\end{eqnarray}\\end{gather}"

/-- What is shown: the backslash makes a separator of the number, and a separator ends the row. -/
def gluedShown : Text :=
  "$$\n\\begin{gathered}\n$$\n\\begin{aligned}\na\\end. &$$\n" ++
    "\\begin{aligned}\n$$\n\\end. \\\\\ntag{1}\n$$ z\n" ++
    "\\end{aligned}\n$$\n\\end{aligned}\n$$\n\\end{gathered}\n$$"

/-- **A number is lost**: one equation is counted, and no number is shown. -/
theorem numbers_of_glued : ∃ resolved,
    (resolve numberingSettings .empty 0 gluedNumber).result = .ok resolved ∧
      resolved.equations = 1 ∧ resolved.text = gluedShown ∧
      ¬ "\\tag{1}".toList <:+: gluedShown := by
  have hshown : ((resolveUnder mayNest numberingSettings .empty 0 gluedNumber).result.toOption.map
      fun r => (r.equations, r.text)) = some (1, gluedShown) := by
    decide +kernel
  obtain ⟨resolved, hresolved⟩ := exists_result_resolve numberingSettings .empty 0 gluedNumber
  rw [← resolve_eq_run, hresolved] at hshown
  obtain ⟨hequations, htext⟩ := Prod.mk.inj (Option.some.inj hshown)
  exact ⟨resolved, hresolved, hequations, htext, by decide +kernel⟩

end TexMark.Environment
