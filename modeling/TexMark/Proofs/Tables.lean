/-
  TexMark/Proofs/Tables.lean
  ==========================
  **Tables.**  What is found in a table behind `put` and `merge`:

    * `get?_merge` — the entries of the newer table cover those of the older one;
    * `merge_eq_append` — entries of new names are put at the end;
    * `merge_merge` — entries that are in the table already change nothing;
    * `perm_of_get?`, `get?_of_perm` — what is found in a table tells it up to the order of its
      entries.
-/
import TexMark.Table
import Mathlib.Data.List.Induction
import Mathlib.Data.List.Nodup

namespace TexMark.Table

variable {α β : Type} {table : Table α}

theorem mem_names_put {name other : Text} {value : α} :
    other ∈ (put name value table).names ↔ other = name ∨ other ∈ table.names := by
  induction table with
  | nil => simp [put, names]
  | cons e table ih =>
    unfold names at ih
    by_cases he : e.1 = name
    · simp [put, names, he]
    · simp only [put, names, if_neg he, List.map_cons, List.mem_cons, ih]
      exact or_left_comm

theorem nodup_names_put {name : Text} {value : α} (h : table.names.Nodup) :
    (put name value table).names.Nodup := by
  induction table with
  | nil => exact List.nodup_singleton name
  | cons e table ih =>
    obtain ⟨hnew, hrest⟩ := List.nodup_cons.mp h
    by_cases he : e.1 = name
    · rw [put, if_pos he]
      exact List.nodup_cons.mpr ⟨he ▸ hnew, hrest⟩
    · rw [put, if_neg he]
      refine List.nodup_cons.mpr ⟨?_, ih hrest⟩
      intro hmem
      exact (mem_names_put.mp hmem).elim he hnew

theorem eq_or_mem_of_mem_put {name : Text} {value : α} {e : Text × α}
    (h : e ∈ put name value table) : e = (name, value) ∨ e ∈ table := by
  induction table with
  | nil => exact .inl (List.mem_singleton.mp h)
  | cons first table ih =>
    rw [put] at h
    split at h
    · rcases List.mem_cons.mp h with rfl | h
      · exact .inl rfl
      · exact .inr (List.mem_cons_of_mem first h)
    · rcases List.mem_cons.mp h with rfl | h
      · exact .inr List.mem_cons_self
      · exact (ih h).imp id (List.mem_cons_of_mem first)

theorem put_of_not_mem {name : Text} (value : α) (h : name ∉ table.names) :
    put name value table = table ++ [(name, value)] := by
  induction table with
  | nil => rfl
  | cons e table ih =>
    obtain ⟨hfirst, hrest⟩ := not_or.mp (fun hmem => h (List.mem_cons.mpr hmem))
    rw [put, if_neg (Ne.symm hfirst), ih hrest]
    rfl

theorem mem_of_get? {name : Text} {value : α} (h : table.get? name = some value) :
    (name, value) ∈ table := by
  obtain ⟨⟨name', value'⟩, hfound, rfl⟩ := Option.map_eq_some_iff.mp h
  have hname : name' = name := by simpa using List.find?_some hfound
  subst hname
  exact List.mem_of_find?_eq_some hfound

theorem get?_eq_none_of_not_mem {name : Text} (h : name ∉ table.names) :
    table.get? name = none := by
  unfold get?
  rw [Option.map_eq_none_iff, List.find?_eq_none]
  intro e he hname
  exact h (List.mem_map.mpr ⟨e, he, beq_iff_eq.mp hname⟩)

theorem get?_erase_self (table : Table α) (name : Text) : (table.erase name).get? name = none := by
  simp [get?, erase]

theorem get?_erase_of_ne (table : Table α) {name other : Text} (h : other ≠ name) :
    (table.erase name).get? other = table.get? other := by
  have hsame : (fun e : Text × α => decide ((e.1 != name) = true ∧ (e.1 == other) = true)) =
      fun e => e.1 == other := by
    funext e
    by_cases he : e.1 = other <;> simp [he, h]
  rw [get?, get?, erase, List.find?_filter, hsame]

theorem get?_map (f : α → β) (table : Table α) (name : Text) :
    Table.get? (table.map fun e => (e.1, f e.2)) name = (table.get? name).map f := by
  unfold Table.get?
  induction table with
  | nil => rfl
  | cons e table ih =>
    by_cases h : e.1 == name
    · simp [h]
    · simpa [h] using ih

theorem get?_merge (older : Table α) (h : table.names.Nodup) (name : Text) :
    (older.merge table).get? name = (table.get? name).or (older.get? name) := by
  induction table generalizing older with
  | nil => rfl
  | cons e table ih =>
    obtain ⟨hnew, hrest⟩ := List.nodup_cons.mp h
    have hstep : older.merge (e :: table) = (put e.1 e.2 older).merge table := rfl
    have hcons : get? (e :: table) name =
        if e.1 = name then some e.2 else get? table name := by
      by_cases he : e.1 = name <;> simp [get?, he]
    rw [hstep, ih _ hrest, get?_put, hcons]
    by_cases he : e.1 = name
    · rw [if_pos he, if_pos he.symm, get?_eq_none_of_not_mem (he ▸ hnew)]
      rfl
    · rw [if_neg he, if_neg (Ne.symm he)]

/-- Of several entries of one name the last counts. -/
theorem get?_merge_last (older table : Table α) (name : Text) :
    (older.merge table).get? name =
      (((table.filter fun e => e.1 == name).getLast?).map (·.2)).or (older.get? name) := by
  induction table using List.reverseRecOn with
  | nil => rfl
  | append_singleton table e ih =>
    have hstep : older.merge (table ++ [e]) = put e.1 e.2 (older.merge table) :=
      List.foldl_concat _ _ _ _
    rw [hstep, get?_put, List.filter_append]
    by_cases he : name = e.1
    · simp [he]
    · simp [he, Ne.symm he, ih]

theorem merge_eq_append {older : Table α} (h : (names (older ++ table)).Nodup) :
    older.merge table = older ++ table := by
  induction table generalizing older with
  | nil => exact (List.append_nil older).symm
  | cons e table ih =>
    have hassoc : older ++ e :: table = older ++ [e] ++ table := by simp
    have hnew : e.1 ∉ older.names := by
      intro hmem
      rw [names, List.map_append] at h
      exact List.disjoint_of_nodup_append h hmem List.mem_cons_self
    have hstep : older.merge (e :: table) = (put e.1 e.2 older).merge table := rfl
    rw [hassoc] at h ⊢
    rw [hstep, put_of_not_mem e.2 hnew]
    exact ih h

/-! ### Names -/

theorem get?_isSome_iff {name : Text} : (table.get? name).isSome ↔ name ∈ table.names := by
  simp [get?, names, List.find?_isSome]

theorem get?_eq_some_iff (h : table.names.Nodup) {name : Text} {value : α} :
    table.get? name = some value ↔ (name, value) ∈ table := by
  refine ⟨mem_of_get?, ?_⟩
  intro hmem
  obtain ⟨value', hvalue'⟩ := Option.isSome_iff_exists.mp
    (get?_isSome_iff.mpr (List.mem_map_of_mem hmem))
  have hsame := List.inj_on_of_nodup_map h hmem (mem_of_get? hvalue') rfl
  rw [hvalue', (Prod.mk.inj hsame).2]

/-- In which order the entries stand does not matter to what is found. -/
theorem get?_of_perm {other : Table α} (h : table.names.Nodup) (hperm : table.Perm other)
    (name : Text) : table.get? name = other.get? name := by
  have hother : other.names.Nodup := (hperm.map Prod.fst).nodup_iff.mp h
  refine Option.ext fun value => ?_
  rw [get?_eq_some_iff h, get?_eq_some_iff hother, hperm.mem_iff]

/-- Two tables in which the same is found have the same entries. -/
theorem perm_of_get? {other : Table α} (h : table.names.Nodup) (hother : other.names.Nodup)
    (hget : ∀ name, table.get? name = other.get? name) : table.Perm other := by
  refine (List.perm_ext_iff_of_nodup (List.Nodup.of_map _ h) (List.Nodup.of_map _ hother)).mpr ?_
  rintro ⟨name, value⟩
  rw [← get?_eq_some_iff h, ← get?_eq_some_iff hother, hget]

theorem mem_names_merge {older : Table α} {name : Text} :
    name ∈ (older.merge table).names ↔ name ∈ older.names ∨ name ∈ table.names := by
  induction table generalizing older with
  | nil => simp [merge, names]
  | cons e table ih =>
    have hstep : older.merge (e :: table) = (put e.1 e.2 older).merge table := rfl
    have hcons : names (e :: table) = e.1 :: names table := rfl
    rw [hstep, ih, mem_names_put, hcons, List.mem_cons, or_left_comm, or_assoc]

theorem nodup_names_merge {older : Table α} (h : older.names.Nodup) :
    (older.merge table).names.Nodup := by
  induction table generalizing older with
  | nil => exact h
  | cons e table ih => exact ih (nodup_names_put h)

theorem names_put {name : Text} {value : α} :
    (put name value table).names =
      if name ∈ table.names then table.names else table.names ++ [name] := by
  split
  · rename_i h
    induction table with
    | nil => cases h
    | cons e table ih =>
      by_cases he : e.1 = name
      · rw [put, if_pos he, names, names, List.map_cons, List.map_cons, he]
      · have hrest : name ∈ names table :=
          (List.mem_cons.mp h).resolve_left (Ne.symm he)
        rw [put, if_neg he, names, List.map_cons]
        exact congrArg (e.1 :: ·) (ih hrest)
  · rename_i h
    rw [put_of_not_mem value h]
    exact List.map_append

/-- Putting entries into a table leaves its names in their places. -/
theorem names_isPrefix_merge (older table : Table α) :
    older.names <+: (older.merge table).names := by
  induction table generalizing older with
  | nil => exact List.prefix_refl _
  | cons e table ih =>
    refine List.IsPrefix.trans ?_ (ih (put e.1 e.2 older))
    rw [names_put]
    split
    · exact List.prefix_refl _
    · exact List.prefix_append _ _

theorem names_merge_of_subset {older : Table α} (h : ∀ name ∈ names table, name ∈ older.names) :
    (older.merge table).names = older.names := by
  induction table generalizing older with
  | nil => rfl
  | cons e table ih =>
    have hput : (put e.1 e.2 older).names = older.names := by
      rw [names_put, if_pos (h e.1 List.mem_cons_self)]
    have hrest : ∀ name ∈ names table, name ∈ (put e.1 e.2 older).names := by
      intro name hname
      rw [hput]
      exact h name (List.mem_cons_of_mem e.1 hname)
    exact (ih hrest).trans hput

/-- Two tables with the same names in the same places are told apart by an entry. -/
theorem ext_of_names {table other : Table α} (hnames : table.names = other.names)
    (hnodup : table.names.Nodup) (hget : ∀ name ∈ table.names, table.get? name = other.get? name) :
    table = other := by
  induction table generalizing other with
  | nil => exact (List.map_eq_nil_iff.mp hnames.symm).symm
  | cons e table ih =>
    cases other with
    | nil => cases hnames
    | cons e' other =>
      obtain ⟨hfirst, hrest⟩ := List.cons.inj hnames
      obtain ⟨hnew, hnodup⟩ := List.nodup_cons.mp hnodup
      have hvalue : e.2 = e'.2 := by
        have h := hget e.1 List.mem_cons_self
        simpa [get?, hfirst] using h
      have htables : table = other := by
        refine ih hrest hnodup fun name hname => ?_
        have hne : e.1 ≠ name := by
          rintro rfl
          exact hnew hname
        have hne' : e'.1 ≠ name := fun h => hne (hfirst.trans h)
        have h := hget name (List.mem_cons_of_mem e.1 hname)
        simpa [get?, hne, hne'] using h
      rw [Prod.ext hfirst hvalue, htables]

/-- Entries that are in the table already change nothing. -/
theorem merge_merge {older : Table α} (h : older.names.Nodup) :
    older.merge (older.merge table) = older.merge table := by
  obtain ⟨added, hadded⟩ := names_isPrefix_merge older table
  obtain ⟨first, rest, hsplit, hfirst, hrest⟩ := List.map_eq_append_iff.mp hadded.symm
  have hnodup : (names (first ++ rest)).Nodup := hsplit ▸ nodup_names_merge h
  have hfirstNodup : (names first).Nodup := (congrArg List.Nodup hfirst).mpr h
  have hover : older.merge first = first := by
    have hnames : (older.merge first).names = names first :=
      (names_merge_of_subset fun name hname => hfirst ▸ hname).trans hfirst.symm
    refine ext_of_names hnames (hnames ▸ hfirstNodup) fun name hname => ?_
    rw [get?_merge older hfirstNodup]
    have hsome : (Table.get? first name).isSome := get?_isSome_iff.mpr (hnames ▸ hname)
    obtain ⟨value, hvalue⟩ := Option.isSome_iff_exists.mp hsome
    rw [hvalue]
    rfl
  calc older.merge (older.merge table) = (older.merge first).merge rest := by
        rw [hsplit]
        exact List.foldl_append
    _ = first ++ rest := by rw [hover, merge_eq_append hnodup]
    _ = older.merge table := hsplit.symm

end TexMark.Table
