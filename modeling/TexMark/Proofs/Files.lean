/-
  TexMark/Proofs/Files.lean
  =========================
  **Files.**  What a disk is like behind a write, and where the path of a file leads:

    * `alike_of_writeText` — writing a file changes what stands at one place, and nothing at any
      other place, be it a file or a directory;
    * `save_cases` — a write reaches no file, or it leaves the file with the text, or empty if the
      encoding complains about the text;
    * `LeadsTo.exists_directory` — the directory of a file depends on the names in front of the
      last one, and the file stands under its last name there;
    * `Path.sibling_spec` — the neighbour of a path has another last name, and the other names
      in common with it.

  A path is followed through directories only, and so are all the places on the way to where it
  leads (`Walked`).  This is why a new file makes no new directory.
-/
import TexMark.Disk

namespace TexMark

/-! ### Neighbours -/

namespace Path

variable {p target : Path} {f : Text → Text}

theorem mapName_eq_ok_iff :
    p.mapName f = .ok target ↔
      ∃ dirs name, p.names = dirs ++ [name] ∧ target = { p with names := dirs ++ [f name] } := by
  unfold mapName
  cases hlast : p.names.getLast? with
  | none =>
    have hnil : p.names = [] := List.getLast?_eq_none_iff.mp hlast
    simp [hnil]
  | some name =>
    obtain ⟨dirs, hdirs⟩ := List.getLast?_eq_some_iff.mp hlast
    constructor
    · intro h
      refine ⟨dirs, name, hdirs, ?_⟩
      rw [hdirs, List.dropLast_concat] at h
      exact (Except.ok.inj h).symm
    · rintro ⟨dirs', name', hnames, rfl⟩
      obtain ⟨rfl, hname⟩ := List.append_inj' (hdirs.symm.trans hnames) rfl
      rw [hdirs, List.dropLast_concat, List.singleton_inj.mp hname]

/-- The neighbour of a path has another last name, and all else in common with it. -/
theorem sibling_spec {suffix : Text} (h : p.sibling suffix = .ok target) :
    ∃ dirs name name', p.names = dirs ++ [name] ∧ name' ≠ name ∧
      target = { p with names := dirs ++ [name'] } := by
  unfold sibling at h
  cases hfirst : p.withSuffix suffix with
  | error e => rw [hfirst] at h; cases h
  | ok first =>
    obtain ⟨dirs, name, hnames, rfl⟩ := mapName_eq_ok_iff.mp hfirst
    simp only [hfirst, bind, Except.bind] at h
    split at h
    · rename_i hself
      obtain ⟨dirs', name', hnames', rfl⟩ := mapName_eq_ok_iff.mp h
      refine ⟨dirs', name', _, hnames', ?_, rfl⟩
      -- the name is its stem and the suffix, and so has no room for more
      have hdirs : dirs ++ [name] = dirs' ++ [name'] := hnames.symm.trans hnames'
      obtain ⟨rfl, hname⟩ := List.append_inj' hdirs rfl
      have hname : name = name' := List.singleton_inj.mp hname
      subst hname
      have hsame : dirs ++ [(splitName name).1 ++ suffix] = dirs ++ [name] := by
        rw [← hnames]
        exact congrArg Path.names hself
      have hstem := List.singleton_inj.mp (List.append_cancel_left hsame)
      intro hlonger
      have hlength := congrArg List.length (hlonger.trans hstem.symm)
      simp only [List.length_append] at hlength
      have hword : (".converted".toList).length = 10 := by decide
      omega
    · rename_i hother
      cases h
      refine ⟨dirs, name, _, hnames, ?_, rfl⟩
      intro hname
      apply hother
      rw [hname, ← hnames]

end Path

namespace Disk

variable {disk : Disk} {path : Path} {place other : Place}

/-! ### Following a path -/

/-- The path leads to the place of a file, or to one where a file can be made. -/
def LeadsTo (disk : Disk) (path : Path) (place : Place) : Prop :=
  disk.lookUp path = .free place ∨ ∃ content, disk.lookUp path = .file place content

def Target.place? : Target → Option Place
  | .file place _ => some place
  | .free place => some place
  | _ => none

theorem leadsTo_iff : disk.LeadsTo path place ↔ (disk.lookUp path).place? = some place := by
  unfold LeadsTo
  cases disk.lookUp path <;> simp [Target.place?]

/-- Where names lead that are followed through directories. -/
def directoryAt? (disk : Disk) (here : Place) : List Text → Option Place
  | [] => some here
  | name :: names =>
    if name = up then directoryAt? disk (outer here) names
    else if disk.nodeAt? (here ++ [name]) = some .directory then
      directoryAt? disk (here ++ [name]) names
    else none

theorem place?_follow {here : Place} {names : List Text}
    (h : (disk.follow path here names).place? = some place) :
    ∃ dirs name directory, names = dirs ++ [name] ∧
      disk.directoryAt? here dirs = some directory ∧ place = directory ++ [name] ∧
      disk.nodeAt? place ≠ some .directory ∧ name ≠ up := by
  induction names generalizing here with
  | nil => cases h
  | cons name names ih =>
    rw [follow] at h
    by_cases hup : name = up
    · rw [if_pos hup] at h
      obtain ⟨dirs, last, directory, hnames, hdirectory, hplace⟩ := ih h
      refine ⟨name :: dirs, last, directory, by rw [hnames]; rfl, ?_, hplace⟩
      rw [directoryAt?, if_pos hup]
      exact hdirectory
    · rw [if_neg hup] at h
      split at h
      · cases h
      · cases hnode : disk.nodeAt? (here ++ [name]) with
        | none =>
          simp only [hnode] at h
          split at h
          · rename_i hempty
            have hnames : names = [] := List.isEmpty_iff.mp hempty
            have hplace : here ++ [name] = place := Option.some.inj h
            subst hnames hplace
            exact ⟨[], name, here, rfl, rfl, rfl, by simp [hnode], hup⟩
          · cases h
        | some node =>
          cases node with
          | directory =>
            simp only [hnode] at h
            obtain ⟨dirs, last, directory, hnames, hdirectory, hplace⟩ := ih h
            refine ⟨name :: dirs, last, directory, by rw [hnames]; rfl, ?_, hplace⟩
            rw [directoryAt?, if_neg hup, if_pos hnode]
            exact hdirectory
          | file content =>
            simp only [hnode] at h
            split at h
            · rename_i hempty
              have hnames : names = [] := List.isEmpty_iff.mp hempty
              have hplace : here ++ [name] = place := Option.some.inj h
              subst hnames hplace
              exact ⟨[], name, here, rfl, rfl, rfl, by simp [hnode], hup⟩
            · cases h

/-- The place where a path begins. -/
def start (path : Path) : Place := if path.slashes = 0 then [] else root

/-- A file stands in the directory to which the names in front of its own lead. -/
theorem LeadsTo.exists_directory (h : disk.LeadsTo path place) :
    ∃ dirs name directory, path.names = dirs ++ [name] ∧
      disk.directoryAt? (start path) dirs = some directory ∧ place = directory ++ [name] ∧
      disk.nodeAt? place ≠ some .directory ∧ name ≠ up := by
  rw [leadsTo_iff, lookUp] at h
  split at h
  · cases h
  · split at h
    · cases h
    · exact place?_follow h

/-! ### Places on the way -/

/-- All places on the way to a place are directories, and the way out of the working directory
    comes first. -/
structure Walked (disk : Disk) (here : Place) : Prop where
  directories : ∀ p, p <+: here → disk.nodeAt? p = some .directory
  ups : here.Pairwise fun a b => b = up → a = up

theorem nodeAt?_of_forall_up (h : ∀ name ∈ place, name = up) :
    disk.nodeAt? place = some .directory := by
  have hfixed : isFixedDirectory place = true := by
    simpa [isFixedDirectory] using .inl h
  rw [nodeAt?, if_pos hfixed]

theorem Walked.start (disk : Disk) (path : Path) : Walked disk (start path) := by
  unfold Disk.start
  split
  · exact ⟨fun p hp => by rw [List.prefix_nil.mp hp]; rfl, List.Pairwise.nil⟩
  · refine ⟨fun p hp => ?_, by decide⟩
    rcases List.prefix_concat_iff.mp (show p <+: [] ++ [['/']] from hp) with rfl | hp
    · rfl
    · rw [List.prefix_nil.mp hp]
      rfl

theorem Walked.enter {here : Place} (h : Walked disk here) {name : Text} (hname : name ≠ up)
    (hnode : disk.nodeAt? (here ++ [name]) = some .directory) : Walked disk (here ++ [name]) where
  directories p hp := by
    rcases List.prefix_concat_iff.mp hp with rfl | hp
    · exact hnode
    · exact h.directories p hp
  ups := by
    refine List.pairwise_append.mpr ⟨h.ups, List.pairwise_singleton _ _, fun a _ b hb hup => ?_⟩
    exact absurd (List.mem_singleton.mp hb ▸ hup) hname

theorem Walked.outer {here : Place} (h : Walked disk here) : Walked disk (outer here) := by
  unfold Disk.outer
  split
  · rename_i hroot
    exact hroot ▸ h
  · cases hlast : here.getLast? with
    | none =>
      have hnil : here = [] := List.getLast?_eq_none_iff.mp hlast
      have hups : ∀ p : Place, p <+: [up] → ∀ name ∈ p, name = up := fun p hp name hmem =>
        List.mem_singleton.mp (hp.subset hmem)
      exact ⟨fun p hp => nodeAt?_of_forall_up (hups p hp), List.pairwise_singleton _ _⟩
    | some name =>
      obtain ⟨front, rfl⟩ := List.getLast?_eq_some_iff.mp hlast
      obtain ⟨hfront, -, hbefore⟩ := List.pairwise_append.mp h.ups
      by_cases hname : name = up
      · have hall : ∀ n ∈ front ++ [name] ++ [up], n = up := by
          intro n hn
          simp only [List.mem_append, List.mem_singleton] at hn
          rcases hn with (hn | rfl) | rfl
          · exact hbefore n hn name (List.mem_singleton.mpr rfl) hname
          · exact hname
          · rfl
        simp only [hname, if_true]
        rw [hname] at hall
        exact ⟨fun p hp => nodeAt?_of_forall_up fun n hn => hall n (hp.subset hn),
          List.pairwise_of_forall_mem_list fun a ha b _ _ => hall a ha⟩
      · simp only [hname, if_false, List.dropLast_concat]
        exact ⟨fun p hp => h.directories p (hp.trans (List.prefix_append front [name])), hfront⟩

theorem walked_directoryAt? {here directory : Place} {names : List Text} (h : Walked disk here)
    (hnames : disk.directoryAt? here names = some directory) : Walked disk directory := by
  induction names generalizing here with
  | nil => exact Option.some.inj hnames ▸ h
  | cons name names ih =>
    rw [directoryAt?] at hnames
    split at hnames
    · exact ih h.outer hnames
    · rename_i hup
      split at hnames
      · rename_i hnode
        exact ih (h.enter hup hnode) hnames
      · cases hnames

/-! ### Writing -/

/-- The disks are alike but for what stands at a place. -/
def Alike (place : Place) (before after : Disk) : Prop :=
  ∀ other ≠ place, after.nodeAt? other = before.nodeAt? other

theorem find?_put (t : Text) (h : other ≠ place) :
    (disk.put place t).nodes.find? (fun e => e.1 == other) =
      disk.nodes.find? fun e => e.1 == other := by
  have hnew : (place == other) = false := by simpa using Ne.symm h
  have hkept : (fun e : Place × Node => decide ((e.1 != place) = true ∧ (e.1 == other) = true)) =
      fun e => e.1 == other := by
    funext e
    by_cases he : e.1 = other
    · simp [he, h]
    · simp [he]
  simp only [put, List.find?_append, List.find?_filter, hkept, List.find?_cons, hnew,
    List.find?_nil, Option.or_none]

/-- A file that is put where the way leads changes nothing but its own place. -/
theorem nodeAt?_put {directory : Place} (hwalked : Walked disk directory) {name t : Text}
    (h : other ≠ directory ++ [name]) :
    (disk.put (directory ++ [name]) t).nodeAt? other = disk.nodeAt? other := by
  by_cases hway : other <+: directory
  · -- on the way there is a directory, before and after
    have hbefore := hwalked.directories other hway
    rw [hbefore]
    unfold nodeAt? at hbefore ⊢
    split
    · rfl
    · rename_i hfixed
      rw [if_neg hfixed] at hbefore
      rw [find?_put t h]
      cases hfind : disk.nodes.find? fun e => e.1 == other with
      | some e => simpa [hfind] using hbefore
      | none =>
        have hnew : other <+: directory ++ [name] := hway.trans (List.prefix_append _ _)
        simp [put, List.isPrefixOf_iff_prefix, hnew]
  · have hnew : ¬ other <+: directory ++ [name] := by
      intro hprefix
      exact (List.prefix_concat_iff.mp hprefix).elim h hway
    have hany : ((disk.put (directory ++ [name]) t).nodes.any fun e => other.isPrefixOf e.1) =
        disk.nodes.any fun e => other.isPrefixOf e.1 := by
      rw [Bool.eq_iff_iff]
      simp only [put, List.any_append, List.any_filter, List.any_cons, List.any_nil,
        Bool.or_false, Bool.or_eq_true, List.any_eq_true, Bool.and_eq_true,
        List.isPrefixOf_iff_prefix, hnew, or_false, bne_iff_ne, ne_eq]
      refine exists_congr fun e => and_congr_right fun _ => ?_
      exact and_iff_right_of_imp fun hprefix heq => hnew (heq ▸ hprefix)
    unfold nodeAt?
    rw [find?_put t h, hany]

theorem nodeAt?_put_self {t : Text} (h : isFixedDirectory place = false) :
    (disk.put place t).nodeAt? place = some (.file (.text t)) := by
  have hgone : (disk.nodes.filter fun e => e.1 != place).find? (fun e => e.1 == place) = none := by
    refine List.find?_eq_none.mpr fun e he => ?_
    simpa using (List.mem_filter.mp he).2
  rw [nodeAt?, h, put, List.find?_append, hgone]
  simp

/-- **A write** changes what stands at the place where its path leads, and nothing at any other
    place. -/
theorem alike_of_writeText {t : Text} {changed : Disk}
    (h : disk.writeText path t = .ok changed) :
    ∃ place, disk.LeadsTo path place ∧ Alike place disk changed ∧
      changed.nodeAt? place = some (.file (.text t)) := by
  have hput : ∀ place, disk.LeadsTo path place → changed = disk.put place t →
      Alike place disk changed ∧ changed.nodeAt? place = some (.file (.text t)) := by
    rintro place hleads rfl
    obtain ⟨dirs, name, directory, -, hdirectory, rfl, hnode, -⟩ := hleads.exists_directory
    have hwalked := walked_directoryAt? (Walked.start disk path) hdirectory
    have hfixed : isFixedDirectory (directory ++ [name]) = false := by
      cases hfixed : isFixedDirectory (directory ++ [name]) with
      | false => rfl
      | true => exact absurd (by rw [nodeAt?, if_pos hfixed]) hnode
    exact ⟨fun other hother => nodeAt?_put hwalked hother, nodeAt?_put_self hfixed⟩
  unfold writeText at h
  split at h
  · cases h
  · cases h
  · rename_i place hlookUp
    exact ⟨place, .inl hlookUp, hput place (.inl hlookUp) (Except.ok.inj h).symm⟩
  · rename_i place content hlookUp
    exact ⟨place, .inr ⟨content, hlookUp⟩,
      hput place (.inr ⟨content, hlookUp⟩) (Except.ok.inj h).symm⟩

/-- **What a write leaves.** -/
theorem save_cases (complaint? : Text → Option Text) (disk : Disk) (path : Path) (t : Text) :
    (∃ fault, disk.save complaint? path t = ⟨disk, some fault⟩) ∨
    (complaint? t = none ∧ ∃ changed, disk.writeText path t = .ok changed ∧
      disk.save complaint? path t = ⟨changed, none⟩) ∨
    ∃ complaint, complaint? t = some complaint ∧ ∃ emptied, disk.writeText path [] = .ok emptied ∧
      disk.save complaint? path t = ⟨emptied, some (.unencodable complaint)⟩ := by
  unfold save
  cases hcomplaint : complaint? t with
  | none =>
    cases hwritten : disk.writeText path t with
    | error fault => exact .inl ⟨fault, by simp [hwritten]⟩
    | ok changed => exact .inr (.inl ⟨rfl, changed, rfl, by simp [hwritten]⟩)
  | some complaint =>
    cases hwritten : disk.writeText path [] with
    | error fault => exact .inl ⟨fault, by simp [hwritten]⟩
    | ok emptied => exact .inr (.inr ⟨complaint, rfl, emptied, rfl, by simp [hwritten]⟩)

theorem save_eq_of_encoded {complaint? : Text → Option Text} {t : Text} {changed : Disk}
    (hencoded : complaint? t = none) (hwritten : disk.writeText path t = .ok changed) :
    disk.save complaint? path t = ⟨changed, none⟩ := by
  simp [save, hencoded, hwritten]

end Disk

end TexMark
