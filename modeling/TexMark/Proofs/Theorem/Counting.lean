/-
  TexMark/Proofs/Theorem/Counting.lean
  ====================================
  **Counters of theorems over whole runs.**  The register is called in any order: kinds are
  declared, sections begin, instances are numbered.  A kind with a counter of its own and the
  kinds that share it count together (`CountsTogether`).

    * `nextNumber_cases` — numbering an instance does nothing, or it counts in the counter of
      its kind, or in that of the kind it counts with;
    * `fresh_get?_after` — but for the counters, the register holds the last declarations;
    * `get?_after` — the counter of the group is the number of its instances since the counter
      was last set back, after every run (`drawn`);
    * `nextNumber_of_group` — so the i-th instance from there on is shown with the number i.
-/
import TexMark.Theorem.Register
import TexMark.Proofs.Readers
import TexMark.Proofs.Tables
import Mathlib.Data.List.DropRight

namespace TexMark

namespace TheoremRegister

/-! ### The register, step by step -/

variable {r : TheoremRegister} {k p : TheoremKind} {name : Text}

theorem get?_declare (r : TheoremRegister) (k : TheoremKind) (name : Text) :
    (r.declare k).kinds.get? name = if name = k.name then some k else r.kinds.get? name :=
  Table.get?_put k.name name k r.kinds

theorem get?_enterSection (r : TheoremRegister) (number : Int) (name : Text) :
    (r.enterSection number).kinds.get? name =
      (r.kinds.get? name).map fun k => if k.bySection then { k with counter := 0 } else k := by
  let restart (k : TheoremKind) : TheoremKind := if k.bySection then { k with counter := 0 } else k
  exact Table.get?_map restart r.kinds name

theorem sharedParent?_eq_some : r.sharedParent? k = some p ↔ k.shared ∧ ∃ parent,
    k.parent? = some parent ∧ parent ≠ [] ∧ parent ≠ sectionParent ∧ parent ≠ k.name ∧
      r.kinds.get? parent = some p := by
  unfold sharedParent?
  cases k.shared with
  | false => simp
  | true =>
    cases k.parent? with
    | none => simp
    | some parent => simp [and_assoc]

theorem sharedParent?_of_own (h : k.shared = false) : r.sharedParent? k = none := by
  simp [sharedParent?, h]

/-- **What numbering an instance does**: nothing, if its name has no numbers; otherwise it
    counts in the counter of its own kind, or in that of the kind it counts with. -/
theorem nextNumber_cases (r : TheoremRegister) (name : Text) :
    (r.nextNumber name = (none, r) ∧ ∀ k, r.kinds.get? name = some k → k.numbered = false) ∨
    (∃ k, r.kinds.get? name = some k ∧ k.numbered ∧ r.sharedParent? k = none ∧
      r.nextNumber name = (some (r.display { k with counter := k.counter + 1 }),
        r.declare { k with counter := k.counter + 1 })) ∨
    (∃ k p, r.kinds.get? name = some k ∧ k.numbered ∧ r.sharedParent? k = some p ∧
      r.nextNumber name = (some (r.display { p with counter := p.counter + 1 }),
        (r.declare { p with counter := p.counter + 1 }).declare
          { k with counter := p.counter + 1 })) := by
  unfold nextNumber
  cases hk : r.kinds.get? name with
  | none => exact .inl ⟨rfl, nofun⟩
  | some k =>
    cases hnumbered : k.numbered with
    | false =>
      refine .inl ⟨by simp [hnumbered], ?_⟩
      intro k' hk'
      cases hk'
      exact hnumbered
    | true =>
      cases hparent : r.sharedParent? k with
      | none => exact .inr (.inl ⟨k, rfl, hnumbered, hparent, by simp [hnumbered, hparent]; rfl⟩)
      | some p =>
        refine .inr (.inr ⟨k, p, rfl, hnumbered, hparent, ?_⟩)
        simp [hnumbered, hparent]
        rfl

end TheoremRegister

/-! ### Runs -/

/-- A call on a register. -/
inductive Call where
  | declare (name heading : Text) (parent? : Option Text) (shared numbered : Bool)
  /-- A `\newtheorem` command, as it is written. -/
  | command (written : Text)
  | number (name : Text)
  | section_ (number : Int)
deriving DecidableEq, Repr

namespace Call

/-- The kind that a call declares. -/
def kind? : Call → Option TheoremKind
  | .declare name heading parent? shared numbered =>
    some ⟨name, heading, 0, parent?, shared, numbered⟩
  | .command written =>
    (NewTheorem.read? (Text.strip written)).map fun c => TheoremRegister.kindOf c.1
  | _ => none

/-- The section that a call begins. -/
def section? : Call → Option Int
  | .section_ n => some n
  | _ => none

/-- The name of which a call numbers an instance. -/
def numbers? : Call → Option Text
  | .number name => some name
  | _ => none

/-- Does a call number an instance of one of some names? -/
def draws (names : List Text) : Call → Bool
  | .number name => names.contains name
  | _ => false

def run (c : Call) (r : TheoremRegister) : TheoremRegister :=
  match c with
  | .declare name heading parent? shared numbered =>
    r.declare ⟨name, heading, 0, parent?, shared, numbered⟩
  | .command written => ((r.declareCommand? written).map (·.2)).getD r
  | .number name => (r.nextNumber name).2
  | .section_ n => r.enterSection n

end Call

namespace Counting

open TheoremRegister

/-- The register after some calls. -/
def after (calls : List Call) : TheoremRegister := calls.foldl (fun r c => c.run r) .empty

def declarations (calls : List Call) : List TheoremKind := calls.filterMap Call.kind?

/-- The section in which the next instance is numbered. -/
def sectionOf (calls : List Call) : Int := (calls.filterMap Call.section?).getLastD 0

/-- The calls since the counter of a kind was last set back by a section. -/
def current (p : TheoremKind) (calls : List Call) : List Call :=
  if p.bySection then calls.rtakeWhile fun c => c.section?.isNone else calls

/-- How many instances of a group have been numbered since its counter was last set back. -/
def drawn (p : TheoremKind) (sharers : List Text) (calls : List Call) : Nat :=
  (current p calls).countP (Call.draws (p.name :: sharers))

/-- The number of an instance as it is shown. -/
def numberText (p : TheoremKind) (section_ : Int) (count : Nat) : Text :=
  if p.bySection then Text.ofInt section_ ++ '.' :: Text.ofNat count else Text.ofNat count

theorem after_concat (calls : List Call) (c : Call) :
    after (calls ++ [c]) = c.run (after calls) := by
  rw [after, List.foldl_append]
  rfl

/-! ### What the register holds -/

/-- A kind as it is declared. -/
def fresh (k : TheoremKind) : TheoremKind := { k with counter := 0 }

/-- Each kind stands under its name. -/
def Keyed (r : TheoremRegister) : Prop := ∀ name k, r.kinds.get? name = some k → k.name = name

theorem run_of_kind {c : Call} {k : TheoremKind} (h : c.kind? = some k) (r : TheoremRegister) :
    c.run r = r.declare k := by
  cases c with
  | declare name heading parent? shared numbered =>
    cases h
    rfl
  | command written =>
    obtain ⟨found, hfound, rfl⟩ := Option.map_eq_some_iff.mp h
    simp [Call.run, declareCommand?, hfound]
  | number name => cases h
  | section_ n => cases h

theorem fresh_of_kind {c : Call} {k : TheoremKind} (h : c.kind? = some k) : fresh k = k := by
  cases c with
  | declare name heading parent? shared numbered =>
    cases h
    rfl
  | command written =>
    obtain ⟨found, hfound, rfl⟩ := Option.map_eq_some_iff.mp h
    unfold kindOf
    split <;> rfl
  | number name => cases h
  | section_ n => cases h

/-- Numbering an instance changes counters only. -/
theorem fresh_get?_nextNumber {r : TheoremRegister} (hr : Keyed r) (m name : Text) :
    ((r.nextNumber m).2.kinds.get? name).map fresh = (r.kinds.get? name).map fresh := by
  rcases nextNumber_cases r m with ⟨h, -⟩ | ⟨k, hk, -, -, h⟩ | ⟨k, p, hk, -, hparent, h⟩
  · rw [h]
  · have hname := hr m k hk
    simp only [h, get?_declare]
    by_cases hsame : name = k.name
    · simp [hsame, hname, hk, fresh]
    · rw [if_neg hsame]
  · have hname := hr m k hk
    obtain ⟨-, parent, -, -, -, -, hp⟩ := sharedParent?_eq_some.mp hparent
    have hname' := hr parent p hp
    simp only [h, get?_declare]
    by_cases hsame : name = k.name
    · simp [hsame, hname, hk, fresh]
    · rw [if_neg hsame]
      by_cases hsame' : name = p.name
      · simp [hsame', hname', hp, fresh]
      · rw [if_neg hsame']

theorem fresh_get?_enterSection (r : TheoremRegister) (n : Int) (name : Text) :
    ((r.enterSection n).kinds.get? name).map fresh = (r.kinds.get? name).map fresh := by
  rw [get?_enterSection, Option.map_map]
  congr 1
  funext k
  by_cases h : k.bySection <;> simp [h, fresh]

theorem keyed_of_fresh {r : TheoremRegister} {kinds : List TheoremKind}
    (h : ∀ name, (r.kinds.get? name).map fresh = (kinds.filter fun k => k.name == name).getLast?) :
    Keyed r := by
  intro name k hk
  have hlast := h name
  rw [hk] at hlast
  have hname := (List.mem_filter.mp (List.mem_of_getLast? hlast.symm)).2
  exact beq_iff_eq.mp hname

/-- **But for its counters, the register holds the last declaration of each name.** -/
theorem fresh_get?_after (calls : List Call) (name : Text) :
    ((after calls).kinds.get? name).map fresh =
      ((declarations calls).filter fun k => k.name == name).getLast? := by
  induction calls using List.reverseRecOn generalizing name with
  | nil => rfl
  | append_singleton calls c ih =>
    have hkeyed : Keyed (after calls) := keyed_of_fresh ih
    rw [after_concat, declarations, List.filterMap_append, List.filter_append, ← declarations]
    cases hkind : c.kind? with
    | some k =>
      rw [run_of_kind hkind, get?_declare]
      by_cases hname : name = k.name
      · simp [hkind, hname, fresh_of_kind hkind]
      · simp [hkind, hname, Ne.symm hname, ih]
    | none =>
      have hsame : ((c.run (after calls)).kinds.get? name).map fresh =
          ((after calls).kinds.get? name).map fresh := by
        cases c with
        | declare name heading parent? shared numbered => cases hkind
        | command written =>
          have hnone := Option.map_eq_none_iff.mp hkind
          simp [Call.run, declareCommand?, hnone]
        | number m => exact fresh_get?_nextNumber hkeyed m name
        | section_ n => exact fresh_get?_enterSection _ n name
      simp [hsame, hkind, ih]

theorem keyed_after (calls : List Call) : Keyed (after calls) :=
  keyed_of_fresh (fresh_get?_after calls)

theorem sectionNumber_run (c : Call) (r : TheoremRegister) :
    (c.run r).sectionNumber = c.section?.getD r.sectionNumber := by
  cases c with
  | declare name heading parent? shared numbered => rfl
  | command written =>
    cases h : NewTheorem.read? (Text.strip written) with
    | none => simp [Call.run, Call.section?, declareCommand?, h]
    | some found => simp [Call.run, Call.section?, declareCommand?, h, declare]
  | number m =>
    rcases nextNumber_cases r m with ⟨h, -⟩ | ⟨_, -, -, -, h⟩ | ⟨_, _, -, -, -, h⟩ <;>
      · rw [Call.run, h]
        rfl
  | section_ n => rfl

theorem sectionOf_concat (calls : List Call) (c : Call) :
    sectionOf (calls ++ [c]) = c.section?.getD (sectionOf calls) := by
  unfold sectionOf
  rw [List.filterMap_append]
  cases hc : c.section? with
  | none => rw [List.filterMap_cons_none hc, List.filterMap_nil, List.append_nil]; rfl
  | some n => rw [List.filterMap_cons_some hc, List.filterMap_nil, List.getLastD_concat]; rfl

theorem sectionNumber_after (calls : List Call) :
    (after calls).sectionNumber = sectionOf calls := by
  induction calls using List.reverseRecOn with
  | nil => rfl
  | append_singleton calls c ih => rw [after_concat, sectionNumber_run, sectionOf_concat, ih]

/-! ### How many have been drawn -/

section

variable (p : TheoremKind) (sharers : List Text)

theorem drawn_concat (calls : List Call) {c : Call} (hc : c.section? = none) :
    drawn p sharers (calls ++ [c]) =
      drawn p sharers calls + if c.draws (p.name :: sharers) then 1 else 0 := by
  have hcurrent : current p (calls ++ [c]) = current p calls ++ [c] := by
    unfold current
    split
    · exact List.rtakeWhile_concat_pos _ _ c (by simp [hc])
    · rfl
  rw [drawn, hcurrent, List.countP_append, List.countP_singleton]
  rfl

theorem drawn_concat_section (calls : List Call) (n : Int) :
    drawn p sharers (calls ++ [.section_ n]) =
      if p.bySection then 0 else drawn p sharers calls := by
  unfold drawn current
  split
  · rw [List.rtakeWhile_concat_neg _ _ _ (by simp [Call.section?])]
    rfl
  · simp [List.countP_append, Call.draws]

theorem drawn_eq_zero {calls : List Call}
    (h : ∀ c ∈ calls, ¬ c.draws (p.name :: sharers)) : drawn p sharers calls = 0 := by
  apply List.countP_eq_zero.mpr
  intro c hc
  apply h c
  unfold current at hc
  split at hc
  · exact (List.rtakeWhile_suffix _ _).subset hc
  · exact hc

end

/-! ### Kinds that count together -/

/-- A kind with a counter of its own and the names that share it, as calls declare and use
    them: each is declared once, and none is numbered before it and the kind are declared. -/
structure CountsTogether (p : TheoremKind) (sharers : List Text) (calls : List Call) : Prop where
  name_ne_nil : p.name ≠ []
  name_ne_section : p.name ≠ sectionParent
  numbered : p.numbered
  own : p.shared = false
  once : ((declarations calls).filter fun k => k.name == p.name) = [p]
  sharing : ∀ q ∈ sharers, ∃ k ∈ declarations calls,
    ((declarations calls).filter fun k => k.name == q) = [k] ∧
      k.shared ∧ k.numbered ∧ k.parent? = some p.name
  declaredFirst : ∀ i (hi : i < calls.length), ∀ m ∈ p.name :: sharers, calls[i] = .number m →
    (∃ k ∈ declarations (calls.take i), k.name = p.name) ∧
      ∃ k ∈ declarations (calls.take i), k.name = m

/-- Does a name count with the kind, as it was last declared? -/
def countsWith (p : TheoremKind) (before : List Call) (name : Text) : Bool :=
  ((declarations before).filter fun k => k.name == name).getLast?.any fun k =>
    k.shared && k.numbered && k.parent? == some p.name

/-- No other name is numbered while it counts with the kind. -/
def NoOthers (p : TheoremKind) (sharers : List Text) (calls : List Call) : Prop :=
  ∀ i (hi : i < calls.length), ∀ m ∈ calls[i].numbers?.toList, m ∉ p.name :: sharers →
    (∃ k ∈ declarations (calls.take i), k.name = p.name) → ¬ countsWith p (calls.take i) m

section

variable {r : TheoremRegister} {p k : TheoremKind} {sharers : List Text} {calls before : List Call}
  {n : Nat} {m : Text}

theorem nextNumber_own (hp : r.kinds.get? p.name = some { p with counter := n })
    (hnumbered : p.numbered) (hown : p.shared = false) :
    r.nextNumber p.name = (some (r.display { p with counter := n + 1 }),
      r.declare { p with counter := n + 1 }) := by
  rcases nextNumber_cases r p.name with ⟨-, hnone⟩ | ⟨k, hk, -, -, h⟩ | ⟨k, _, hk, -, hparent, -⟩
  · exact absurd hnumbered (by simpa using hnone _ hp)
  · rw [hp] at hk
    cases hk
    exact h
  · rw [hp] at hk
    cases hk
    have hnone : r.sharedParent? { p with counter := n } = none := sharedParent?_of_own hown
    rw [hnone] at hparent
    cases hparent

theorem nextNumber_sharer (hp : r.kinds.get? p.name = some { p with counter := n })
    (hk : r.kinds.get? m = some k) (hshared : k.shared) (hnumbered : k.numbered)
    (hparent : k.parent? = some p.name) (hne : p.name ≠ []) (hsection : p.name ≠ sectionParent)
    (hother : k.name ≠ p.name) :
    r.nextNumber m = (some (r.display { p with counter := n + 1 }),
      (r.declare { p with counter := n + 1 }).declare { k with counter := n + 1 }) := by
  have hfound : r.sharedParent? k = some { p with counter := n } :=
    sharedParent?_eq_some.mpr ⟨hshared, p.name, hparent, hne, hsection, hother.symm, hp⟩
  rcases nextNumber_cases r m with ⟨-, hnone⟩ | ⟨k', hk', -, hown, -⟩ | ⟨k', p', hk', -, hparent', h⟩
  · rw [hnone k hk] at hnumbered
    cases hnumbered
  · rw [hk] at hk'
    cases hk'
    rw [hfound] at hown
    cases hown
  · rw [hk] at hk'
    cases hk'
    rw [hfound] at hparent'
    cases hparent'
    exact h

/-- Numbering an instance of a name that does not count with the kind leaves its counter alone. -/
theorem get?_nextNumber_other (hr : Keyed r) (hm : m ≠ p.name)
    (hother : ∀ k, r.kinds.get? m = some k → k.numbered → k.shared → k.parent? ≠ some p.name) :
    (r.nextNumber m).2.kinds.get? p.name = r.kinds.get? p.name := by
  rcases nextNumber_cases r m with ⟨h, -⟩ | ⟨k, hk, -, -, h⟩ | ⟨k, q, hk, hnumbered, hparent, h⟩
  · rw [h]
  · rw [h, get?_declare, if_neg]
    exact fun heq => hm (by rw [← hr m k hk]; exact heq.symm)
  · obtain ⟨hshared, parent, hparent', -, -, -, hq⟩ := sharedParent?_eq_some.mp hparent
    have hname : p.name ≠ q.name := by
      intro heq
      rw [← hr parent q hq, ← heq] at hparent'
      exact hother k hk hnumbered hshared hparent'
    have hname' : p.name ≠ k.name := fun heq => hm (by rw [← hr m k hk]; exact heq.symm)
    simp only [h, get?_declare]
    rw [if_neg hname', if_neg hname]

/-! ### The counter of a group -/

theorem filter_declarations_isPrefix (hbefore : before <+: calls) (f : TheoremKind → Bool) :
    (declarations before).filter f <+: (declarations calls).filter f :=
  (hbefore.filterMap _).filter f

/-- What stands under a name that is declared once. -/
theorem fresh_of_once (hbefore : before <+: calls)
    (honce : ((declarations calls).filter fun k => k.name == m) = [p])
    (hk : (after before).kinds.get? m = some k) : fresh k = p := by
  have hlast := fresh_get?_after before m
  rw [hk] at hlast
  have hmem := (filter_declarations_isPrefix hbefore _).subset (List.mem_of_getLast? hlast.symm)
  rw [honce] at hmem
  exact List.mem_singleton.mp hmem

theorem exists_get?_of_declared (h : ∃ k ∈ declarations before, k.name = m) :
    ∃ k, (after before).kinds.get? m = some k := by
  obtain ⟨k, hk, rfl⟩ := h
  cases hget : (after before).kinds.get? k.name with
  | some k' => exact ⟨k', rfl⟩
  | none =>
    have hlast := fresh_get?_after before k.name
    rw [hget] at hlast
    have hnil := List.getLast?_eq_none_iff.mp hlast.symm
    have hmem : k ∈ (declarations before).filter fun k' => k'.name == k.name :=
      List.mem_filter.mpr ⟨hk, beq_self_eq_true _⟩
    rw [hnil] at hmem
    cases hmem

theorem CountsTogether.declared (h : CountsTogether p sharers calls) {rest : List Call}
    (hcalls : calls = before ++ .number m :: rest) (hm : m ∈ p.name :: sharers) :
    (∃ k ∈ declarations before, k.name = p.name) ∧ ∃ k ∈ declarations before, k.name = m := by
  subst hcalls
  have hfirst := h.declaredFirst before.length (by simp) m hm (by simp)
  rwa [List.take_left] at hfirst

theorem NoOthers.not_countsWith (h : NoOthers p sharers calls) {rest : List Call}
    (hcalls : calls = before ++ .number m :: rest) (hm : m ∉ p.name :: sharers)
    (hdeclared : ∃ k ∈ declarations before, k.name = p.name) : ¬ countsWith p before m := by
  subst hcalls
  have hother := h before.length (by simp) m (by simp [Call.numbers?]) hm
  rw [List.take_left] at hother
  exact hother hdeclared

theorem countsWith_of_get? (hk : (after before).kinds.get? m = some k) (hshared : k.shared)
    (hnumbered : k.numbered) (hparent : k.parent? = some p.name) : countsWith p before m := by
  have hlast := fresh_get?_after before m
  rw [hk] at hlast
  rw [countsWith, ← hlast]
  simp [fresh, hshared, hnumbered, hparent]

/-- Numbering an instance of the group counts in the counter of the kind. -/
theorem nextNumber_of_member (h : CountsTogether p sharers calls)
    (hbefore : before ++ [.number m] <+: calls) (hm : m ∈ p.name :: sharers)
    (hp : (after before).kinds.get? p.name = some { p with counter := n }) :
    ((after before).nextNumber m).1 = some ((after before).display { p with counter := n + 1 }) ∧
      ((after before).nextNumber m).2.kinds.get? p.name = some { p with counter := n + 1 } := by
  by_cases hown : m = p.name
  · subst hown
    rw [nextNumber_own hp h.numbered h.own]
    exact ⟨rfl, by simp [get?_declare]⟩
  · obtain ⟨rest, hcalls⟩ := hbefore
    have hcalls' : calls = before ++ .number m :: rest := by
      rw [← hcalls]
      simp
    obtain ⟨k, hk⟩ := exists_get?_of_declared (h.declared hcalls' hm).2
    obtain ⟨k₀, -, honce, hshared, hnumbered, hparent⟩ :=
      h.sharing m ((List.mem_cons.mp hm).resolve_left hown)
    have hfresh : fresh k = k₀ := fresh_of_once ⟨_, hcalls'.symm⟩ honce hk
    subst hfresh
    have hname : k.name ≠ p.name := by
      rw [keyed_after before m k hk]
      exact hown
    rw [nextNumber_sharer hp hk hshared hnumbered hparent h.name_ne_nil h.name_ne_section hname]
    exact ⟨rfl, by simp [get?_declare, hname.symm]⟩

/-- Nothing is drawn before the kind is declared. -/
theorem drawn_of_undeclared (h : CountsTogether p sharers calls) (hbefore : before <+: calls)
    (hnone : ((declarations before).filter fun k => k.name == p.name) = []) :
    drawn p sharers before = 0 := by
  apply drawn_eq_zero
  intro c hc hdraws
  obtain ⟨front, back, rfl⟩ := List.append_of_mem hc
  obtain ⟨rest, rfl⟩ := hbefore
  cases c with
  | number m =>
    have hsplit : (front ++ .number m :: back) ++ rest = front ++ .number m :: (back ++ rest) := by
      simp
    obtain ⟨⟨k, hk, hname⟩, -⟩ := h.declared hsplit (List.contains_iff_mem.mp hdraws)
    have hmem : k ∈ (declarations (front ++ .number m :: back)).filter fun k => k.name == p.name := by
      apply List.mem_filter.mpr
      rw [declarations, List.filterMap_append]
      exact ⟨List.mem_append_left _ hk, beq_iff_eq.mpr hname⟩
    rw [hnone] at hmem
    cases hmem
  | declare name heading parent? shared numbered => cases hdraws
  | command written => cases hdraws
  | section_ n => cases hdraws

/-- A declaration of the kind sets its counter to nothing, and no other declaration touches
    it. -/
theorem get?_run_of_kind (h : CountsTogether p sharers calls) {c : Call}
    (hbefore : before ++ [c] <+: calls) (hkind : c.kind? = some k)
    (ih : (∃ k ∈ declarations before, k.name = p.name) →
      (after before).kinds.get? p.name = some { p with counter := drawn p sharers before })
    (hdeclared : ∃ k ∈ declarations (before ++ [c]), k.name = p.name) :
    (c.run (after before)).kinds.get? p.name =
      some { p with counter := drawn p sharers (before ++ [c]) } := by
  have hcall : c.section? = none ∧ c.draws (p.name :: sharers) = false := by
    cases c <;> first | exact ⟨rfl, rfl⟩ | cases hkind
  have hdeclarations : declarations (before ++ [c]) = declarations before ++ [k] := by
    simp [declarations, hkind]
  have honce := filter_declarations_isPrefix hbefore fun k => k.name == p.name
  rw [hdeclarations, List.filter_append, h.once] at honce
  rw [run_of_kind hkind, get?_declare, drawn_concat p sharers before hcall.1, hcall.2]
  by_cases hname : k.name = p.name
  · -- The one declaration of the kind: there was none before it, so nothing has been drawn.
    rw [List.filter_cons_of_pos (by simpa using hname), List.filter_nil] at honce
    have hlength := honce.length_le
    rw [List.length_append, List.length_singleton, List.length_singleton] at hlength
    have hnone : ((declarations before).filter fun k => k.name == p.name) = [] :=
      List.length_eq_zero_iff.mp (by omega)
    rw [hnone, List.nil_append] at honce
    have hp : k = p := List.mem_singleton.mp (honce.subset (List.mem_singleton_self k))
    subst hp
    have hfresh := fresh_of_kind hkind
    rw [if_pos rfl, drawn_of_undeclared h ((List.prefix_append before [c]).trans hbefore) hnone]
    exact congrArg some hfresh.symm
  · rw [if_neg (Ne.symm hname)]
    apply ih
    obtain ⟨k', hk', hname'⟩ := hdeclared
    rw [hdeclarations] at hk'
    rcases List.mem_append.mp hk' with hk' | hk'
    · exact ⟨k', hk', hname'⟩
    · rw [List.mem_singleton.mp hk'] at hname'
      exact absurd hname' hname

/-- **The counter of a group**: after every run it is the number of instances that have been
    drawn since it was last set back. -/
theorem get?_after (h : CountsTogether p sharers calls) (hothers : NoOthers p sharers calls)
    (hbefore : before <+: calls) (hdeclared : ∃ k ∈ declarations before, k.name = p.name) :
    (after before).kinds.get? p.name = some { p with counter := drawn p sharers before } := by
  -- On the last call: the counter is looked at from the declaration of the kind on only, as no
  -- call of the group comes before that.
  induction before using List.reverseRecOn with
  | nil =>
    obtain ⟨k, hk, -⟩ := hdeclared
    cases hk
  | append_singleton before c ih =>
    have hbefore' : before <+: calls := (List.prefix_append before [c]).trans hbefore
    rw [after_concat]
    cases hkind : c.kind? with
    | some k => exact get?_run_of_kind h hbefore hkind (ih hbefore') hdeclared
    | none =>
      have hdeclared' : ∃ k ∈ declarations before, k.name = p.name := by
        simpa [declarations, hkind] using hdeclared
      have hp := ih hbefore' hdeclared'
      cases c with
      | declare name heading parent? shared numbered => cases hkind
      | command written =>
        have hnone : NewTheorem.read? (Text.strip written) = none := Option.map_eq_none_iff.mp hkind
        rw [drawn_concat p sharers before rfl]
        simpa [Call.run, declareCommand?, hnone, Call.draws] using hp
      | number m =>
        rw [drawn_concat p sharers before rfl]
        by_cases hm : m ∈ p.name :: sharers
        · have hdraws : Call.draws (p.name :: sharers) (.number m) = true :=
            List.contains_iff_mem.mpr hm
          rw [hdraws]
          exact (nextNumber_of_member h hbefore hm hp).2
        · have hdraws : Call.draws (p.name :: sharers) (.number m) = false := by
            simpa [Call.draws] using hm
          rw [hdraws, if_neg Bool.false_ne_true, Nat.add_zero, ← hp]
          -- Only an outsider that shares the counter could change it, and none is numbered.
          refine get?_nextNumber_other (keyed_after before) (fun heq => hm (by simp [heq])) ?_
          intro k hk hnumbered hshared hparent
          obtain ⟨rest, hrest⟩ := hbefore
          have hcalls : calls = before ++ .number m :: rest := by
            rw [← hrest]
            simp
          exact hothers.not_countsWith hcalls hm hdeclared'
            (countsWith_of_get? hk hshared hnumbered hparent)
      | section_ n =>
        rw [drawn_concat_section, Call.run, get?_enterSection, hp]
        change some (if p.bySection then _ else _) = _
        split <;> rfl

/-- **Numbers of a group.**  An instance is shown with the count of the instances of the group
    since its counter was last set back; nothing that is called with other names changes it. -/
theorem nextNumber_of_group (h : CountsTogether p sharers calls)
    (hothers : NoOthers p sharers calls) {rest : List Call}
    (hcalls : calls = before ++ .number m :: rest) (hm : m ∈ p.name :: sharers) :
    ((after before).nextNumber m).1 =
      some (numberText p (sectionOf before) (drawn p sharers before + 1)) := by
  have hbefore : before ++ [.number m] <+: calls := ⟨rest, by simp [hcalls]⟩
  have hp := get?_after h hothers ((List.prefix_append _ _).trans hbefore)
    (h.declared hcalls hm).1
  rw [(nextNumber_of_member h hbefore hm hp).1, display, sectionNumber_after]
  rfl

/-! ### Numbers along a run -/

/-- The sections of a run begin one after the other, each with the next number. -/
def Ascending (calls : List Call) : Prop :=
  ∀ before n rest, calls = before ++ .section_ n :: rest → n = sectionOf before + 1

theorem sectionOf_append (before later : List Call) (h : Ascending (before ++ later)) :
    sectionOf (before ++ later) =
      sectionOf before + later.countP fun c => c.section?.isSome := by
  induction later using List.reverseRecOn with
  | nil => simp
  | append_singleton later c ih =>
    have ih := ih fun front n rest heq => h front n (rest ++ [c]) (by
      rw [← List.append_assoc, heq]
      simp)
    rw [← List.append_assoc, sectionOf_concat, List.countP_append, List.countP_singleton]
    cases hc : c.section? with
    | none => simpa using ih
    | some n =>
      cases c with
      | section_ n' =>
        cases hc
        have hn := h (before ++ later) n [] (by simp)
        simp only [Option.getD_some, Option.isSome_some, if_true, hn, ih]
        omega
      | declare name heading parent? shared numbered => cases hc
      | command written => cases hc
      | number m => cases hc

theorem drawn_append (p : TheoremKind) (sharers : List Text) (before later : List Call)
    (h : p.bySection → later.countP (fun c => c.section?.isSome) = 0) :
    drawn p sharers (before ++ later) =
      drawn p sharers before + later.countP (Call.draws (p.name :: sharers)) := by
  induction later using List.reverseRecOn with
  | nil => simp
  | append_singleton later c ih =>
    have ih := ih fun hp => by
      have := h hp
      rw [List.countP_append] at this
      omega
    rw [← List.append_assoc, List.countP_append, List.countP_singleton]
    cases c with
    | section_ n =>
      have hsection : p.bySection = false := by
        cases hp : p.bySection with
        | false => rfl
        | true =>
          have := h hp
          simp [Call.section?, List.countP_append] at this
      rw [drawn_concat_section, hsection, if_neg Bool.false_ne_true, ih]
      rfl
    | declare name heading parent? shared numbered => rw [drawn_concat p sharers _ rfl, ih]; omega
    | command written => rw [drawn_concat p sharers _ rfl, ih]; omega
    | number m => rw [drawn_concat p sharers _ rfl, ih]; omega

theorem point_not_mem_ofNat (n : Nat) : '.' ∉ Text.ofNat n := by
  intro hmem
  have := Nat.isDigit_of_mem_toDigits (by decide) (by decide) hmem
  revert this
  decide

/-- A number that is shown tells the count, and the section if the group counts by it. -/
theorem numberText_inj {s s' : Int} {i i' : Nat} (hs : 0 ≤ s) (hs' : 0 ≤ s')
    (h : numberText p s i = numberText p s' i') : (p.bySection → s = s') ∧ i = i' := by
  unfold numberText at h
  split at h
  · have hsection : ∀ {s : Int}, 0 ≤ s → Text.ofInt s = Text.ofNat s.natAbs := by
      intro s hs
      exact if_neg (by omega)
    rw [hsection hs, hsection hs'] at h
    obtain ⟨hfront, -, hback⟩ := (List.append_cons_inj_of_notMem (point_not_mem_ofNat _)
      (point_not_mem_ofNat _)).mp h
    have := Text.ofNat_injective hfront
    exact ⟨fun _ => by omega, Text.ofNat_injective hback⟩
  · rename_i hown
    exact ⟨fun hp => absurd hp hown, Text.ofNat_injective h⟩

/-- **No two numbers of a group are alike** while the sections ascend. -/
theorem numberText_ne (hascending : Ascending calls) {between rest : List Call}
    (hm : m ∈ p.name :: sharers)
    (hcalls : calls = before ++ .number m :: (between ++ rest)) :
    numberText p (sectionOf before) (drawn p sharers before + 1) ≠
      numberText p (sectionOf (before ++ .number m :: between))
        (drawn p sharers (before ++ .number m :: between) + 1) := by
  have hfront : ∀ front rest, calls = front ++ rest → Ascending front := by
    rintro front rest rfl before n rest' rfl
    exact hascending before n (rest' ++ rest) (by simp)
  have hbefore := hfront before _ hcalls
  have hbetween := hfront (before ++ .number m :: between) rest (by simp [hcalls])
  have hnonneg : ∀ {front}, Ascending front → 0 ≤ sectionOf front := by
    intro front h
    have := sectionOf_append [] front h
    have hzero : sectionOf [] = 0 := rfl
    rw [List.nil_append, hzero] at this
    omega
  intro heq
  obtain ⟨hsection, hcount⟩ := numberText_inj (hnonneg hbefore) (hnonneg hbetween) heq
  -- The sections agree, so none begins in between, and the first of the two has been counted.
  have happend := drawn_append p sharers before (.number m :: between) fun hp => by
      have := hsection hp
      rw [sectionOf_append _ _ hbetween] at this
      omega
  have hdraws : Call.draws (p.name :: sharers) (.number m) = true := List.contains_iff_mem.mpr hm
  rw [List.countP_cons_of_pos hdraws] at happend
  omega

end

end Counting

end TexMark
