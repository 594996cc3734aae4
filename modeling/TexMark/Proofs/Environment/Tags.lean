/-
  TexMark/Proofs/Environment/Tags.lean
  ====================================
  **Numbers shown on equations.**  An unstarred equation that allows a number is shown with
  one when it ends.  The number says how many equations have been shown with one:

    * `convert_of_tagged`, `convert_of_untagged` — a conversion counts one equation if it shows
      its number, and none otherwise;
    * `equations_run` — behind any events the count is that of the equations shown with numbers;
    * `tagsInTurn` — so the k-th of them gets the number k.
-/
import TexMark.Proofs.Environment.Placement

namespace TexMark.Environment

open Noted

/-! ### Conversions -/

/-- A formula, without its number, if it is one of those that may have a number. -/
def formula? (settings : Settings) (frame : Frame) (content : Text) : Option Text :=
  match settings.converters.get? frame.name with
  | some .equation => some (Text.strip content)
  | some .multline =>
    some (wrapped "aligned" [] (Rows.join (indentedRows (Rows.split content))))
  | _ => none

/-- The formula that is shown with a number. -/
def tagged? (settings : Settings) (frame : Frame) (content : Text) : Option Text :=
  (formula? settings frame content).filter fun body =>
    settings.numberEquations && numberedNames.contains frame.name && !isUnnumbered body

/-- What a converter writes if no number is shown. -/
def Converter.plain (converter : Converter) (frame : Frame) (content : Text) : Text :=
  match converter with
  | .equation => Delimiter.display (Text.strip content)
  | .aligned =>
    Delimiter.display (wrapped "aligned" [] (Rows.join (alignedRows frame content)))
  | .gather => Delimiter.display (wrapped "gathered" [] (Rows.reflow content))
  | .multline =>
    Delimiter.display (wrapped "aligned" [] (Rows.join (indentedRows (Rows.split content))))
  | .inner => wrapped frame.name (frame.argument?.elim [] Text.braced) (Rows.reflow content)
  | .container => Text.strip content
  | .unknown => Delimiter.display (wrapped frame.name [] (Text.strip content))

/-- What a frame is turned into if no number is shown. -/
def Frame.plain (settings : Settings) (register : TheoremRegister) (frame : Frame)
    (content : Text) : Text :=
  match settings.converters.get? frame.name with
  | some converter => converter.plain frame content
  | none =>
    if isTheorem register frame.name then
      let callout := Callout.render register frame.name content frame.number? frame.title?
      if frame.inline then '\n' :: '\n' :: callout else callout
    else Converter.unknown.plain frame content

/-- A formula as it is shown with a number. -/
def showTagged (body : Text) (number : Nat) : Text :=
  Delimiter.display (body ++ " \\tag" ++ Text.braced (Text.ofNat number))

section

variable {settings : Settings} {frame : Frame} {content body : Text}

theorem withTag_of_allowed {equations : Nat}
    (h : settings.numberEquations && numberedNames.contains frame.name && !isUnnumbered body) :
    withTag settings frame body equations =
      (body ++ " \\tag" ++ Text.braced (Text.ofNat (equations + 1)), equations + 1) := if_pos h

theorem withTag_of_forbidden {equations : Nat}
    (h : ¬(settings.numberEquations && numberedNames.contains frame.name && !isUnnumbered body)) :
    withTag settings frame body equations = (body, equations) := if_neg h

/-- A formula is shown with what `withTag` makes of it. -/
theorem convert_of_formula (h : formula? settings frame content = some body)
    (register : TheoremRegister) (equations : Nat) :
    (frame.convert settings register content equations).result =
      .ok (Delimiter.display (withTag settings frame body equations).1,
        (withTag settings frame body equations).2) := by
  unfold formula? at h
  unfold Frame.convert
  cases hconverter : settings.converters.get? frame.name with
  | none =>
    rw [hconverter] at h
    cases h
  | some converter =>
    rw [hconverter] at h
    cases converter <;> cases h <;> rfl

theorem convert_of_tagged (h : tagged? settings frame content = some body)
    (register : TheoremRegister) (equations : Nat) :
    (frame.convert settings register content equations).result =
      .ok (showTagged body (equations + 1), equations + 1) := by
  obtain ⟨hformula, hallowed⟩ := Option.filter_eq_some_iff.mp h
  rw [convert_of_formula hformula, withTag_of_allowed hallowed]
  rfl

theorem convert_of_untagged (h : tagged? settings frame content = none)
    (register : TheoremRegister) (equations : Nat) :
    (frame.convert settings register content equations).result =
      .ok (frame.plain settings register content, equations) := by
  have hforbidden : ∀ body, formula? settings frame content = some body →
      ¬(settings.numberEquations && numberedNames.contains frame.name &&
        !isUnnumbered body) := by
    intro body hbody hallowed
    rw [tagged?, hbody, Option.filter_eq_none_iff] at h
    exact h body rfl hallowed
  unfold formula? at hforbidden
  unfold Frame.convert Frame.plain
  cases hconverter : settings.converters.get? frame.name with
  | none =>
    by_cases htheorem : isTheorem register frame.name
    · simp only [htheorem, if_true]
      rfl
    · simp only [htheorem]
      rfl
  | some converter =>
    rw [hconverter] at hforbidden
    cases converter with
    | equation =>
      simp only [Converter.apply, withTag_of_forbidden (hforbidden _ rfl)]
      rfl
    | multline =>
      simp only [Converter.apply, withTag_of_forbidden (hforbidden _ rfl)]
      rfl
    | inner =>
      cases hargument : frame.argument? <;>
        simp [Converter.apply, Converter.plain, hargument]
    | aligned => rfl
    | gather => rfl
    | container => rfl
    | unknown => rfl

end

/-! ### Runs -/

/-- The formula that is shown with a number when an event is taken. -/
def taggedBy? (settings : Settings) (text : Text) (s : Progress) (e : Hit Event) : Option Text :=
  match e.value, s.stack with
  | .closing name, frame :: _ =>
    if frame.name = name then
      tagged? settings frame (Edit.splice text frame.contentStart e.start frame.edits)
    else none
  | _, _ => none

/-- The formulas that a run shows with numbers, in their order. -/
def taggedIn (allowed : Text → Text → Bool) (settings : Settings) (text : Text) (s : Progress) :
    List (Hit Event) → List Text
  | [] => []
  | e :: es =>
    match (advance allowed settings text s e).result with
    | .ok s' => (taggedBy? settings text s e).toList ++ taggedIn allowed settings text s' es
    | .error _ => []

section

variable {allowed : Text → Text → Bool} {settings : Settings} {text : Text} {s s' : Progress}
  {e : Hit Event} {es : List (Hit Event)} {body : Text}

/-- **An equation that is shown with a number** gets the next one. -/
theorem advance_of_tagged (allowed : Text → Text → Bool)
    (h : taggedBy? settings text s e = some body) :
    ∃ frame outer, s.stack = frame :: outer ∧ e.value = .closing frame.name ∧
      (advance allowed settings text s e).result = .ok
        ({ s with stack := outer, equations := s.equations + 1 }.add
          [⟨frame.start, e.stop, showTagged body (s.equations + 1)⟩]) := by
  unfold taggedBy? at h
  split at h
  · rename_i name frame outer hvalue hstack
    split at h
    · rename_i hname
      refine ⟨frame, outer, hstack, by rw [hname, hvalue], ?_⟩
      unfold advance
      rw [hvalue]
      exact result_close_convert hstack hname (convert_of_tagged h s.register s.equations)
    · cases h
  · cases h

/-- Other ends count no equation. -/
theorem equations_close {name : Text} {start stop : Nat}
    (h : taggedBy? settings text s ⟨start, stop, .closing name⟩ = none)
    (hresult : (close settings text s name start stop).result = .ok s') :
    s'.equations = s.equations := by
  rcases result_close_cases hresult with
    rfl | ⟨frame, outer, converted, equations, hstack, hname, hconvert, rfl⟩ | ⟨_, _, _, -, rfl⟩
  · rfl
  · have huntagged : tagged? settings frame
        (Edit.splice text frame.contentStart start frame.edits) = none := by
      simpa [taggedBy?, hstack, hname] using h
    rw [convert_of_untagged huntagged] at hconvert
    cases hconvert
    rfl
  · rfl

/-- What an event adds to the count of the equations. -/
theorem equations_advance (h : (advance allowed settings text s e).result = .ok s') :
    s'.equations = s.equations + (taggedBy? settings text s e).toList.length := by
  cases htagged : taggedBy? settings text s e with
  | some body =>
    obtain ⟨frame, outer, -, -, hresult⟩ := advance_of_tagged allowed htagged
    rw [hresult] at h
    cases h
    rfl
  | none =>
    obtain ⟨start, stop, value⟩ := e
    cases value with
    | opening name =>
      simp only [advance] at h
      rw [bind_of_ok (result_reportNesting _ _ _ _)] at h
      cases h
      rfl
    | closing name => exact equations_close htagged h
    | section_ =>
      cases h
      rfl
    | declaration command =>
      cases h
      rfl

/-- **The count of the equations** says how many have been shown with numbers. -/
theorem equations_run (h : (es.foldlM (advance allowed settings text) s).result = .ok s') :
    s'.equations = s.equations + (taggedIn allowed settings text s es).length := by
  induction es generalizing s with
  | nil =>
    cases h
    rfl
  | cons e es ih =>
    rw [List.foldlM_cons] at h
    obtain ⟨s₁, hstep, hrest⟩ := of_result_bind h
    rw [ih hrest, equations_advance hstep, taggedIn, hstep, List.length_append]
    omega

end

/-- The numbers of the equations of a document follow each other: the one that is shown behind
    some events has the number of those that they show, and one more. -/
def TagsInTurn (settings : Settings) (register : TheoremRegister) (text : Text) : Prop :=
  ∀ front e rest s body, events settings register text = front ++ e :: rest →
    (front.foldlM (advance mayNest settings text) (.start register 0)).result = .ok s →
    taggedBy? settings text s e = some body →
    let number := (taggedIn mayNest settings text (.start register 0) front).length + 1
    ∃ frame outer, s.stack = frame :: outer ∧
      (advance mayNest settings text s e).result = .ok
        ({ s with stack := outer, equations := number }.add
          [⟨frame.start, e.stop, showTagged body number⟩])

theorem tagsInTurn (settings : Settings) (register : TheoremRegister) (text : Text) :
    TagsInTurn settings register text := by
  intro front e rest s body _ hrun htagged
  have hcount := equations_run hrun
  obtain ⟨frame, outer, hstack, -, hresult⟩ := advance_of_tagged mayNest htagged
  rw [hcount] at hresult
  refine ⟨frame, outer, hstack, ?_⟩
  simpa [Progress.start] using hresult

end TexMark.Environment
