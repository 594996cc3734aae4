/-
  TexMark/Proofs/Json/Objects.lean
  ================================
  **Objects that were read.**  A member that comes again takes the place of the one before it, so
  no object that was read has two members of one name, however deep it lies (`distinct_of_read`).
  This is an invariant of the machine: of the arrays and objects that are open, and of the value
  that is complete.
-/
import TexMark.Json.Reader
import TexMark.Proofs.Tables

namespace TexMark.Json

/-- The members of every object in a value have different names. -/
inductive Distinct : Json → Prop where
  | null : Distinct .null
  | bool (b : Bool) : Distinct (.bool b)
  | int (i : Int) : Distinct (.int i)
  | float (x : Binary64) : Distinct (.float x)
  | str (t : Text) : Distinct (.str t)
  | arr {items : List Json} (hitems : ∀ v ∈ items, Distinct v) : Distinct (.arr items)
  | obj {members : List (Text × Json)} (hnames : (Table.names members).Nodup)
      (hmembers : ∀ e ∈ members, Distinct e.2) : Distinct (.obj members)

/-! ### Tokens -/

/-- A value that comes as one token is distinct. -/
def Token.Distinct : Token → Prop
  | .scalar v => v.Distinct
  | _ => True

theorem distinct_of_number? {t rest : Text} {v : Json} (h : number? t = some (v, rest)) :
    v.Distinct := by
  unfold number? at h
  simp only [Option.bind_eq_bind, Option.bind_eq_some_iff] at h
  obtain ⟨⟨whole, afterWhole⟩, -, h⟩ := h
  dsimp only at h
  split at h
  · split at h
    · cases h
    · obtain rfl : _ = v := congrArg Prod.fst (Option.some.inj h)
      exact .int _
  · obtain rfl : _ = v := congrArg Prod.fst (Option.some.inj h)
    exact .float _

theorem distinct_of_mem_words {w : Text × Json} (h : w ∈ words) : w.2.Distinct := by
  simp only [words, List.mem_cons, List.not_mem_nil, or_false] at h
  rcases h with rfl | rfl | rfl | rfl | rfl | rfl
  · exact .null
  · exact .bool true
  · exact .bool false
  all_goals exact .float _

theorem distinct_of_symbol? {t : Text} {token : Token} {size : Nat}
    (h : symbol? t = some (token, size)) : token.Distinct := by
  cases t with
  | nil => cases h
  | cons c rest =>
    simp only [symbol?] at h
    iterate 6
      split at h
      · cases h
        trivial
    split at h
    · rename_i w hfound
      cases h
      exact distinct_of_mem_words (List.mem_of_find?_eq_some hfound)
    · obtain ⟨⟨v, behind⟩, hnumber, h⟩ := Option.map_eq_some_iff.mp h
      cases h
      exact distinct_of_number? hnumber

theorem distinct_of_token? {c : Char} {rest : Text} {token : Token} {size : Nat}
    (h : token? c rest = some (token, size)) : token.Distinct := by
  unfold token? at h
  split at h
  · obtain ⟨r, -, hr⟩ := Option.map_eq_some_iff.mp h
    cases hr
    trivial
  · exact distinct_of_symbol? h

/-! ### The machine -/

/-- What is done of an open array or object is distinct. -/
def Open.Distinct : Open → Prop
  | .array done => ∀ v ∈ done, v.Distinct
  | .object done _ => (Table.names done).Nodup ∧ ∀ e ∈ done, e.2.Distinct

structure Machine.Distinct (m : Machine) : Prop where
  opened : ∀ o ∈ m.stack, o.Distinct
  complete : ∀ v ∈ m.result?, v.Distinct

theorem Machine.Distinct.incomplete {stack : List Open} (h : ∀ o ∈ stack, o.Distinct)
    (expected : Expected) : Machine.Distinct ⟨stack, expected, none⟩ where
  opened := h
  complete := by simp

theorem distinct_place {v : Json} (hv : v.Distinct) {stack : List Open}
    (h : ∀ o ∈ stack, o.Distinct) : (place v stack).Distinct := by
  cases stack with
  | nil => exact ⟨h, fun w hw => Option.some.inj hw ▸ hv⟩
  | cons o outer =>
    obtain ⟨ho, houter⟩ := List.forall_mem_cons.mp h
    cases o with
    | array done =>
      refine .incomplete (List.forall_mem_cons.mpr ⟨?_, houter⟩) _
      intro w hw
      rcases List.mem_append.mp hw with hw | hw
      · exact ho w hw
      · rw [List.mem_singleton.mp hw]
        exact hv
    | object done name =>
      have hput : Open.Distinct (.object (Table.put name v done) name) := by
        constructor
        · exact Table.nodup_names_put ho.1
        · intro e he
          rcases Table.eq_or_mem_of_mem_put he with rfl | he
          · exact hv
          · exact ho.2 e he
      exact .incomplete (List.forall_mem_cons.mpr ⟨hput, houter⟩) _

/-- A token that is read keeps what there is distinct. -/
theorem distinct_step {m m' : Machine} {token : Token} (htoken : token.Distinct)
    (hm : m.Distinct) (h : step m token = some m') : m'.Distinct := by
  obtain ⟨stack, expected, result?⟩ := m
  have hstack : ∀ o ∈ stack, o.Distinct := hm.opened
  cases token with
  | scalar v =>
    simp only [step, Option.ite_none_right_eq_some, Option.some.injEq] at h
    obtain ⟨-, rfl⟩ := h
    exact distinct_place htoken hstack
  | string t =>
    simp only [step] at h
    split at h
    · cases h
      exact distinct_place (.str t) hstack
    · split at h
      · rename_i done _ outer
        simp only [Option.ite_none_right_eq_some, Option.some.injEq] at h
        obtain ⟨-, rfl⟩ := h
        -- the name of the member to come is no part of what is done
        obtain ⟨hdone, houter⟩ := List.forall_mem_cons.mp hstack
        have hnamed : Open.Distinct (.object done t) := hdone
        exact .incomplete (List.forall_mem_cons.mpr ⟨hnamed, houter⟩) _
      · cases h
  | openArray =>
    simp only [step, Option.ite_none_right_eq_some, Option.some.injEq] at h
    obtain ⟨-, rfl⟩ := h
    have hempty : Open.Distinct (.array []) := by simp [Open.Distinct]
    exact .incomplete (List.forall_mem_cons.mpr ⟨hempty, hstack⟩) _
  | openObject =>
    simp only [step, Option.ite_none_right_eq_some, Option.some.injEq] at h
    obtain ⟨-, rfl⟩ := h
    have hempty : Open.Distinct (.object [] []) := by simp [Open.Distinct, Table.names]
    exact .incomplete (List.forall_mem_cons.mpr ⟨hempty, hstack⟩) _
  | closeArray =>
    cases stack with
    | nil => cases h
    | cons o outer =>
      obtain ⟨ho, houter⟩ := List.forall_mem_cons.mp hstack
      cases o with
      | object done name => cases h
      | array done =>
        simp only [step, Option.ite_none_right_eq_some, Option.some.injEq] at h
        obtain ⟨-, rfl⟩ := h
        exact distinct_place (.arr ho) houter
  | closeObject =>
    cases stack with
    | nil => cases h
    | cons o outer =>
      obtain ⟨ho, houter⟩ := List.forall_mem_cons.mp hstack
      cases o with
      | array done => cases h
      | object done name =>
        simp only [step, Option.ite_none_right_eq_some, Option.some.injEq] at h
        obtain ⟨-, rfl⟩ := h
        exact distinct_place (.obj ho.1 ho.2) houter
  | comma =>
    cases stack with
    | nil => cases h
    | cons o outer =>
      cases o <;> simp only [step, Option.ite_none_right_eq_some, Option.some.injEq] at h
      all_goals
        obtain ⟨-, rfl⟩ := h
        exact .incomplete hstack _
  | colon =>
    simp only [step, Option.ite_none_right_eq_some, Option.some.injEq] at h
    obtain ⟨-, rfl⟩ := h
    exact .incomplete hstack _

theorem distinct_of_readFrom {nesting skip : Nat} {t : Text} {m m' : Machine} (hm : m.Distinct)
    (h : readFrom nesting skip m t = .ok m') : m'.Distinct := by
  induction t generalizing skip m with
  | nil =>
    cases h
    exact hm
  | cons c rest ih =>
    cases skip with
    | succ skip => exact ih hm h
    | zero =>
      simp only [readFrom] at h
      split at h
      · exact ih hm h
      · split at h
        · cases h
        · rename_i token size htoken
          split at h
          · cases h
          · rename_i next hstep
            split at h
            · cases h
            · exact ih (distinct_step (distinct_of_token? htoken) hm hstep) h

/-- **A value that was read is distinct.** -/
theorem distinct_of_read {nesting : Nat} {t : Text} {v : Json} (h : read nesting t = .ok v) :
    v.Distinct := by
  unfold read at h
  have hstart : Machine.Distinct ⟨[], .value, none⟩ := .incomplete (by simp) _
  cases hrun : readFrom nesting 0 ⟨[], .value, none⟩ t with
  | error e => rw [hrun] at h; cases h
  | ok m =>
    have hm := distinct_of_readFrom hstart hrun
    rw [hrun] at h
    simp only [bind, Except.bind] at h
    split at h
    · cases h
    · rename_i w hresult
      cases h
      exact hm.complete v hresult

end TexMark.Json
