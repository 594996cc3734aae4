/-
  TexMark/Proofs/Rows/Separators.lean
  ===================================
  **Where rows end.**  The signs of a formula are its braces, its control words and its double
  backslashes, as far as they are not escaped.  A word is read to its end here, whereas the rows
  are found by pieces of words (`mark_eq`).

  Rows end at the double backslashes at which no brace and no environment is open
  (`split_eq_rowsBetween`).  Where braces are balanced and environments nested, that is outside all
  braces and environments; but a word that merely begins with `begin` counts as an environment
  that never ends (`split_of_wellNested`).
-/
import TexMark.Markup.Group
import TexMark.Proofs.Rows.Pieces

namespace TexMark.Rows

open Text (isLetter strip)
open Scan (escapedBehind escapedBehind_append)

variable {c r t u rest : Text} {p : Piece}

/-! ### Signs -/

/-- What braces and commands do to the places behind them. -/
inductive Sign where
  | separator
  /-- The word `\begin`, with the name of the environment if a group follows. -/
  | begins (name : Option Text)
  | ends (name : Option Text)
  /-- Another control word. -/
  | word (name : Text)
  | opens
  | closes
deriving DecidableEq, Repr

/-- The name in the group at the head of a text. -/
def groupName? (t : Text) : Option Text :=
  (Group.braces? (Text.skipBlanks t)).map fun group => strip group.1

/-- The control word behind a backslash. A word goes on as long as letters follow. -/
def word? (t : Text) : Option Sign :=
  let name := t.takeWhile isLetter
  if name = [] then none
  else if name = "begin".toList then some (.begins (groupName? (t.dropWhile isLetter)))
  else if name = "end".toList then some (.ends (groupName? (t.dropWhile isLetter)))
  else some (.word name)

/-- The sign at the head of a text. -/
def sign? : Text → Option Sign
  | '\\' :: '\\' :: _ => some .separator
  | '\\' :: rest => word? rest
  | '{' :: _ => some .opens
  | '}' :: _ => some .closes
  | _ => none

/-- The sign at an offset, unless it is escaped. -/
def signAt (c : Text) (i : Nat) : Option Sign :=
  if Scan.isEscaped c i then none else sign? (c.drop i)

/-- The signs in front of an offset, from left to right. -/
def signsBefore (c : Text) (i : Nat) : List Sign := (List.range i).filterMap (signAt c)

/-! ### Inside and outside -/

/-- The names of the environments that are open behind a sign, innermost first. There are none if
    an environment is not nested in the one around it. -/
def nest (names : List Text) : Sign → Option (List Text)
  | .begins (some name) => some (name :: names)
  | .begins none => none
  | .ends (some name) => if names.head? = some name then some names.tail else none
  | .ends none => none
  | _ => some names

def openNames (signs : List Sign) : Option (List Text) := signs.foldlM nest []

/-- No brace closes that was not opened, and each one that is opened is closed. -/
def BracesBalanced (c : Text) : Prop :=
  (∀ i < c.length, (signsBefore c i).count .closes ≤ (signsBefore c i).count .opens) ∧
  (signsBefore c c.length).count .closes = (signsBefore c c.length).count .opens

/-- Each environment ends inside the one in which it begins. -/
def WellNested (c : Text) : Prop := openNames (signsBefore c c.length) = some []

/-- Outside all braces and outside all environments. -/
def Outside (c : Text) (i : Nat) : Prop :=
  (signsBefore c i).count .opens = (signsBefore c i).count .closes ∧
  openNames (signsBefore c i) = some []

/-- A longer word that merely begins with `begin`. -/
def Sign.MerelyBegins : Sign → Prop
  | .word name => "begin".toList <+: name
  | _ => False

instance (c : Text) : Decidable (BracesBalanced c) := inferInstanceAs (Decidable (_ ∧ _))

instance (c : Text) : Decidable (WellNested c) := inferInstanceAs (Decidable (_ = _))

instance (c : Text) : DecidablePred (Outside c) := fun _ => inferInstanceAs (Decidable (_ ∧ _))

instance : DecidablePred Sign.MerelyBegins
  | .word name => inferInstanceAs (Decidable ("begin".toList <+: name))
  | .separator | .begins _ | .ends _ | .opens | .closes => inferInstanceAs (Decidable False)

/-- The pieces of a text between the double backslashes at the offsets. -/
def cutAt (c : Text) (start : Nat) : List Nat → List Text
  | [] => [c.drop start]
  | i :: more => Text.slice c start i :: cutAt c (i + 2) more

/-- The rows of a formula if they end at the double backslashes at which `ends` holds. -/
def rowsBetween (c : Text) (ends : Nat → Prop) [DecidablePred ends] : List Text :=
  dropEmptyTail ((cutAt c 0 ((List.range c.length).filter fun i =>
    signAt c i = some .separator ∧ ends i)).map strip)

/-! ### Words and pieces of words -/

/-- What the pieces at which rows are found make of a sign. -/
def Sign.mark : Sign → Mark
  | .separator => .separator
  | .begins _ => .enter
  | .ends _ => .leave
  | .word name => if "begin".toList <+: name then .enter else .plain
  | .opens => .openBrace
  | .closes => .closeBrace

theorem Sign.mark_eq_separator_iff {s : Sign} : s.mark = .separator ↔ s = .separator := by
  cases s with
  | word name =>
    rw [Sign.mark]
    split <;> simp
  | _ => simp [Sign.mark]

def markAt (sign : Option Sign) : Mark := (sign.map Sign.mark).getD .plain

theorem markAt_eq_separator_iff {sign : Option Sign} :
    markAt sign = .separator ↔ sign = some .separator := by
  cases sign with
  | none => simp [markAt]
  | some s => simpa [markAt] using Sign.mark_eq_separator_iff

theorem markAt_word {name : Text} :
    markAt (some (.word name)) = if "begin".toList <+: name then .enter else .plain := rfl

theorem markAt_word? (hbegin : ¬ "begin".toList <+: t) (hend : ¬ "end".toList <+: t) :
    markAt (word? t) = .plain := by
  have hname : t.takeWhile isLetter <+: t := List.takeWhile_prefix isLetter
  have hlonger {w : Text} (hw : ¬ w <+: t) : ¬ w <+: t.takeWhile isLetter :=
    fun h => hw (h.trans hname)
  have hne {w : Text} (hw : ¬ w <+: t) : t.takeWhile isLetter ≠ w :=
    fun h => hlonger hw (h ▸ List.prefix_rfl)
  rw [word?]
  split
  · rfl
  · rw [if_neg (hne hbegin), if_neg (hne hend), markAt_word, if_neg (hlonger hbegin)]

theorem markAt_word?_begin (t : Text) : markAt (word? ("begin".toList ++ t)) = .enter := by
  have hname : ("begin".toList ++ t).takeWhile isLetter = "begin".toList ++ t.takeWhile isLetter :=
    List.takeWhile_append_of_pos (List.all_eq_true.mp rfl)
  rw [word?, hname]
  cases t.takeWhile isLetter with
  | nil => rfl
  | cons c name =>
    rw [if_neg (by simp), if_neg (by simp), if_neg (by simp), markAt_word,
      if_pos (List.prefix_append _ _)]

theorem markAt_word?_end (t : Text) : markAt (word? ("end".toList ++ t)) =
    if letterFollows t then .plain else .leave := by
  have hname : ("end".toList ++ t).takeWhile isLetter = "end".toList ++ t.takeWhile isLetter :=
    List.takeWhile_append_of_pos (List.all_eq_true.mp rfl)
  rw [word?, hname]
  cases t with
  | nil => rfl
  | cons c t =>
    by_cases hc : isLetter c
    · rw [List.takeWhile_cons_of_pos hc, if_neg (by simp), if_neg (by simp), if_neg (by simp),
        markAt_word, if_neg (by simp), letterFollows, if_pos hc]
    · rw [List.takeWhile_cons_of_neg hc, letterFollows, if_neg hc]
      rfl

theorem sign?_eq_none {c : Char} (hc : IsPlain c) (t : Text) :
    sign? (c :: t) = none := by
  obtain ⟨hbackslash, hopen, hclose⟩ := hc
  rw [sign?] <;> simp_all

/-- **A sign at a piece.**  The mark of a piece is that of the sign at which it begins. -/
theorem mark_eq (hp : Piece.Stands p rest) : p.mark = markAt (sign? (p.lexeme ++ rest)) := by
  cases hp with
  | separator => rfl
  | enter => exact (markAt_word?_begin rest).symm
  | leave => exact (markAt_word?_end rest).symm
  | escaped c rest hseparator hbegin hend =>
    have hsign : sign? ('\\' :: c :: rest) = word? (c :: rest) := by
      rw [sign?]
      simpa using hseparator
    exact (congrArg markAt hsign).trans (markAt_word? hbegin hend) |>.symm
  | openBrace => rfl
  | closeBrace => rfl
  | char c rest hc =>
    exact (congrArg markAt (sign?_eq_none hc rest)).symm
  | lone => rfl

/-! ### The signs of a piece -/

theorem signAt_append (u t : Text) :
    signAt (u ++ t) u.length = if escapedBehind false u then none else sign? t := by
  rw [signAt, Scan.isEscaped, List.take_left, List.drop_left]
  have := Scan.escapedBehind_escapes [] u
  rw [List.append_nil] at this
  rw [← this]
  rfl

/-- A piece is one character, or a backslash with characters behind it that are no signs unless
    the first of them is. -/
theorem lexeme_cases (hp : Piece.Stands p rest) : (∃ c, p.lexeme = [c]) ∨
    ∃ c w, p.lexeme = '\\' :: c :: w ∧ ∀ d ∈ w, IsPlain d := by
  cases hp with
  | separator => exact .inr ⟨'\\', [], rfl, by simp⟩
  | enter => exact .inr ⟨'b', ['e', 'g', 'i', 'n'], rfl, by simp [IsPlain]⟩
  | leave => exact .inr ⟨'e', ['n', 'd'], rfl, by simp [IsPlain]⟩
  | escaped c => exact .inr ⟨c, [], rfl, by simp⟩
  | openBrace => exact .inl ⟨'{', rfl⟩
  | closeBrace => exact .inl ⟨'}', rfl⟩
  | char c => exact .inl ⟨c, rfl⟩
  | lone => exact .inl ⟨'\\', rfl⟩

theorem signAt_inside (hu : escapedBehind false u = false) (hp : Piece.Stands p rest) {j : Nat}
    (hpos : 0 < j) (hj : j < p.lexeme.length) :
    signAt (u ++ (p.lexeme ++ rest)) (u.length + j) = none := by
  have hlength : (u ++ p.lexeme.take j).length = u.length + j := by
    rw [List.length_append, List.length_take, Nat.min_eq_left hj.le]
  have htext : u ++ (p.lexeme ++ rest) = (u ++ p.lexeme.take j) ++ (p.lexeme.drop j ++ rest) := by
    rw [List.append_assoc, ← List.append_assoc (p.lexeme.take j), List.take_append_drop]
  rw [← hlength, htext, signAt_append, escapedBehind_append, hu]
  rcases lexeme_cases hp with ⟨c, hlexeme⟩ | ⟨c, w, hlexeme, hw⟩
  · rw [hlexeme, List.length_singleton] at hj
    omega
  · rw [hlexeme] at hj ⊢
    obtain _ | _ | k := j
    · exact absurd hpos (by omega)
    · rfl
    · have hk : k < w.length := by simpa using hj
      have hsign := sign?_eq_none (hw _ (List.getElem_mem hk)) (w.drop (k + 1) ++ rest)
      simp only [List.drop_succ_cons]
      rw [List.drop_eq_getElem_cons hk, List.cons_append, hsign, ite_self]

/-- Of the places of a piece, only the first one may hold a sign. -/
theorem exists_range_lexeme (hu : escapedBehind false u = false) (hp : Piece.Stands p rest) :
    ∃ n, List.range' u.length p.lexeme.length = u.length :: List.range' (u.length + 1) n ∧
      ∀ i ∈ List.range' (u.length + 1) n, signAt (u ++ (p.lexeme ++ rest)) i = none := by
  obtain ⟨n, hn⟩ := Nat.exists_eq_succ_of_ne_zero (mt List.length_eq_zero_iff.mp hp.lexeme_ne_nil)
  refine ⟨n, by rw [hn, List.range'_succ], fun i hi => ?_⟩
  obtain ⟨hfirst, hlast⟩ := List.mem_range'_1.mp hi
  obtain ⟨j, rfl⟩ := Nat.exists_eq_add_of_le (Nat.le_of_succ_le hfirst)
  exact signAt_inside hu hp (by omega) (by omega)

theorem signsBefore_piece (hu : escapedBehind false u = false) (hp : Piece.Stands p rest) :
    signsBefore (u ++ (p.lexeme ++ rest)) (u ++ p.lexeme).length =
      signsBefore (u ++ (p.lexeme ++ rest)) u.length ++ (sign? (p.lexeme ++ rest)).toList := by
  obtain ⟨n, hrange, hnone⟩ := exists_range_lexeme hu hp
  rw [signsBefore, signsBefore, List.length_append, List.range_eq_range', List.range_eq_range',
    ← List.range'_append_1, Nat.zero_add, hrange, List.filterMap_append, List.filterMap_cons,
    signAt_append, hu, List.filterMap_eq_nil_iff.mpr hnone]
  cases sign? (p.lexeme ++ rest) <;> rfl

/-! ### Where rows end -/

/-- How many braces and environments are open at an offset, as rows are found. -/
def depthBefore (c : Text) (i : Nat) : Depth :=
  (signsBefore c i).foldl (fun d s => d.after s.mark) top

theorem depthBefore_piece (hu : escapedBehind false u = false) (hp : Piece.Stands p rest) :
    depthBefore (u ++ (p.lexeme ++ rest)) (u ++ p.lexeme).length =
      (depthBefore (u ++ (p.lexeme ++ rest)) u.length).after p.mark := by
  rw [depthBefore, depthBefore, signsBefore_piece hu hp, List.foldl_append, mark_eq hp]
  cases sign? (p.lexeme ++ rest) <;> rfl

def Ends (c : Text) (i : Nat) : Prop := (depthBefore c i).isTop

instance (c : Text) : DecidablePred (Ends c) := fun _ => inferInstanceAs (Decidable (_ = true))

/-- The offsets at which rows end, among the `n` offsets from `start` on. -/
def endsFrom (c : Text) (start n : Nat) : List Nat :=
  (List.range' start n).filter fun i => signAt c i = some .separator ∧ Ends c i

theorem endsFrom_piece (hu : escapedBehind false u = false) (hp : Piece.Stands p rest) :
    endsFrom (u ++ (p.lexeme ++ rest)) u.length (p.lexeme ++ rest).length =
      (if p.mark = .separator ∧ (depthBefore (u ++ (p.lexeme ++ rest)) u.length).isTop
        then [u.length] else []) ++
      endsFrom (u ++ (p.lexeme ++ rest)) (u ++ p.lexeme).length rest.length := by
  obtain ⟨n, hrange, hnone⟩ := exists_range_lexeme hu hp
  have hinside : (List.range' (u.length + 1) n).filter (fun i =>
      signAt (u ++ (p.lexeme ++ rest)) i = some .separator ∧
        Ends (u ++ (p.lexeme ++ rest)) i) = [] := by
    rw [List.filter_eq_nil_iff]
    intro i hi
    simp [hnone i hi]
  have hseparator : signAt (u ++ (p.lexeme ++ rest)) u.length = some .separator ↔
      p.mark = .separator := by
    rw [signAt_append, hu, mark_eq hp]
    exact markAt_eq_separator_iff.symm
  rw [endsFrom, endsFrom, List.length_append, List.length_append, ← List.range'_append_1, hrange,
    List.filter_append, List.filter_cons, hinside]
  simp only [hseparator, Ends, decide_eq_true_eq]

/-- **Rows are what stands between the places where rows end.**  By induction over the pieces,
    where a row has begun at `start`. -/
theorem cutAt_endsFrom {start : Nat} (hstart : start ≤ u.length)
    (hu : t = [] ∨ escapedBehind false u = false) {row : Text} {rows : List Text}
    (h : splitPieces (depthBefore (u ++ t) u.length) (pieces t) = row :: rows) :
    cutAt (u ++ t) start (endsFrom (u ++ t) u.length t.length) =
      (Text.slice (u ++ t) start u.length ++ row) :: rows := by
  induction t using reading generalizing u start row rows with
  | nil =>
    cases h
    simp [endsFrom, cutAt, Text.slice]
  | piece p rest hp ih =>
    have hu : escapedBehind false u = false := by
      refine hu.resolve_left fun hnil => ?_
      exact hp.lexeme_ne_nil (List.append_eq_nil_iff.mp hnil).1
    have hnext : rest = [] ∨ escapedBehind false (u ++ p.lexeme) = false := by
      by_cases hlone : p.lexeme = ['\\']
      · exact .inl (hp.eq_nil hlone)
      · exact .inr (by rw [escapedBehind_append, hu, hp.escapedBehind_lexeme hlone])
    have htext : u ++ (p.lexeme ++ rest) = u ++ p.lexeme ++ rest := (List.append_assoc _ _ _).symm
    have hdepth := depthBefore_piece hu hp
    rw [hp.pieces_eq] at h
    rw [endsFrom_piece hu hp]
    by_cases hend : p.mark = .separator ∧ (depthBefore (u ++ (p.lexeme ++ rest)) u.length).isTop
    · -- the row ends here, and the next one begins behind the separator
      rw [splitPieces, if_pos hend] at h
      cases h
      obtain ⟨row, rows, hrows⟩ := List.exists_cons_of_ne_nil (splitPieces_ne_nil
        (depthBefore (u ++ (p.lexeme ++ rest)) u.length) (pieces rest))
      have hlength : (u ++ p.lexeme).length = u.length + 2 := by
        rw [List.length_append, hp.lexeme_of_separator hend.1]
        rfl
      rw [hend.1, Depth.after] at hdepth
      rw [← hdepth, htext] at hrows
      have hcut := ih le_rfl hnext hrows
      rw [← htext, hdepth] at hrows
      rw [if_pos hend, List.singleton_append, cutAt, ← hlength, hrows]
      rw [htext, hcut]
      simp [Text.slice]
    · obtain ⟨row', rows', hrows⟩ := List.exists_cons_of_ne_nil (splitPieces_ne_nil
        ((depthBefore (u ++ (p.lexeme ++ rest)) u.length).after p.mark) (pieces rest))
      rw [splitPieces_cons hend hrows] at h
      cases h
      rw [← hdepth, htext] at hrows
      have hbegun : start ≤ (u ++ p.lexeme).length := by
        rw [List.length_append]
        omega
      have hcut := ih hbegun hnext hrows
      have hslice : Text.slice (u ++ p.lexeme ++ rest) start (u ++ p.lexeme).length =
          Text.slice (u ++ p.lexeme ++ rest) start u.length ++ p.lexeme := by
        rw [Text.slice, Text.slice, List.take_left, List.drop_append_of_le_length hstart,
          List.append_assoc, List.take_left]
      rw [if_neg hend, List.nil_append, htext, hcut, hslice, List.append_assoc]

/-- **What the rows are.**  A row ends at each double backslash at which the braces and the
    environments that were opened are closed, as they are counted. -/
theorem split_eq_rowsBetween (c : Text) : split c = rowsBetween c (Ends c) := by
  obtain ⟨row, rows, hrows⟩ := List.exists_cons_of_ne_nil (splitPieces_ne_nil top (pieces c))
  have hcut := cutAt_endsFrom (Nat.zero_le ([] : Text).length) (.inr rfl) hrows
  rw [rowsBetween, split, hrows, List.range_eq_range']
  exact congrArg (fun pieces => dropEmptyTail (pieces.map strip)) hcut.symm

/-! ### Balanced braces and nested environments -/

/-- What is known of an offset up to which braces and environments are in order: the depth is that
    of the braces and of the environments, and of the words that merely begin with `begin`. -/
structure Counted (signs : List Sign) (d : Depth) : Prop where
  closed : signs.count .closes ≤ signs.count .opens
  braces : d.braces = signs.count .opens - signs.count .closes
  environments : ∃ names, openNames signs = some names ∧
    d.environments = names.length + signs.countP fun s => s.MerelyBegins

theorem openNames_append (signs more : List Sign) :
    openNames (signs ++ more) = (openNames signs).bind fun names => more.foldlM nest names :=
  List.foldlM_append

theorem openNames_concat (signs : List Sign) (s : Sign) :
    openNames (signs ++ [s]) = (openNames signs).bind (nest · s) := by
  simp [openNames_append]

/-- How the environments that are open, and those that seem to be, change at a sign. -/
theorem environments_after {d : Depth} {names names' : List Text} {s : Sign} {n : Nat}
    (hd : d.environments = names.length + n) (hnest : nest names s = some names') :
    (d.after s.mark).environments = names'.length + (n + if s.MerelyBegins then 1 else 0) := by
  cases s with
  | begins name =>
    cases name with
    | none => cases hnest
    | some name =>
      cases hnest
      simp [Sign.mark, Depth.after, Sign.MerelyBegins, hd]
      omega
  | ends name =>
    cases name with
    | none => cases hnest
    | some name =>
      cases names with
      | nil => cases hnest
      | cons first names =>
        obtain ⟨-, rfl⟩ : first = name ∧ names = names' := by simpa [nest] using hnest
        simp [Sign.mark, Depth.after, Sign.MerelyBegins, hd]
  | word name =>
    cases hnest
    by_cases hname : "begin".toList <+: name
    · rw [Sign.mark, if_pos hname, if_pos (show (Sign.word name).MerelyBegins from hname)]
      simp [Depth.after, hd]
      omega
    · rw [Sign.mark, if_neg hname, if_neg (show ¬ (Sign.word name).MerelyBegins from hname)]
      exact hd
  | separator | opens | closes =>
    cases hnest
    simp [Sign.mark, Depth.after, Sign.MerelyBegins, hd]

theorem braces_after {signs : List Sign} {d : Depth} {s : Sign}
    (hclosed : (signs ++ [s]).count .closes ≤ (signs ++ [s]).count .opens)
    (hd : d.braces = signs.count .opens - signs.count .closes)
    (h : signs.count .closes ≤ signs.count .opens) :
    (d.after s.mark).braces = (signs ++ [s]).count .opens - (signs ++ [s]).count .closes := by
  cases s with
  | word name =>
    rw [Sign.mark]
    split <;> simpa [Depth.after, List.count_append] using hd
  | opens =>
    simp [Sign.mark, Depth.after, List.count_append, hd]
    omega
  | closes =>
    simp [Sign.mark, Depth.after, List.count_append, hd]
    omega
  | separator | begins | ends => simpa [Sign.mark, Depth.after, List.count_append] using hd

theorem Counted.step {signs : List Sign} {d : Depth} {s : Sign} (h : Counted signs d)
    (hclosed : (signs ++ [s]).count .closes ≤ (signs ++ [s]).count .opens)
    (hnested : (openNames (signs ++ [s])).isSome) : Counted (signs ++ [s]) (d.after s.mark) := by
  obtain ⟨names, hnames, henvironments⟩ := h.environments
  obtain ⟨names', hnames'⟩ := Option.isSome_iff_exists.mp hnested
  refine ⟨hclosed, braces_after hclosed h.braces h.closed, names', hnames', ?_⟩
  rw [openNames_concat, hnames] at hnames'
  rw [environments_after henvironments hnames', List.countP_append]
  simp

theorem signsBefore_succ (c : Text) (i : Nat) :
    signsBefore c (i + 1) = signsBefore c i ++ (signAt c i).toList := by
  rw [signsBefore, signsBefore, List.range_succ, List.filterMap_append, List.filterMap_cons]
  cases signAt c i <;> rfl

theorem signsBefore_isPrefix {i j : Nat} (h : i ≤ j) : signsBefore c i <+: signsBefore c j := by
  induction j, h using Nat.le_induction with
  | base => exact List.prefix_rfl
  | succ j _ ih =>
    rw [signsBefore_succ]
    exact ih.trans (List.prefix_append _ _)

/-- Environments that are nested in the end have been nested all the time. -/
theorem WellNested.isSome {i : Nat} (h : WellNested c) (hi : i ≤ c.length) :
    (openNames (signsBefore c i)).isSome := by
  obtain ⟨more, hmore⟩ := signsBefore_isPrefix (c := c) hi
  rw [WellNested, ← hmore, openNames_append] at h
  cases hnames : openNames (signsBefore c i) with
  | none =>
    rw [hnames] at h
    cases h
  | some names => rfl

theorem BracesBalanced.count_le {i : Nat} (h : BracesBalanced c) (hi : i ≤ c.length) :
    (signsBefore c i).count .closes ≤ (signsBefore c i).count .opens := by
  rcases Nat.lt_or_eq_of_le hi with hlt | rfl
  · exact h.1 i hlt
  · exact h.2.le

/-- **Depths are counted.**  In a formula whose braces are balanced and whose environments are
    nested, the depth at each offset is the one that the signs before it say. -/
theorem counted {i : Nat} (hbraces : BracesBalanced c) (hnested : WellNested c)
    (hi : i ≤ c.length) : Counted (signsBefore c i) (depthBefore c i) := by
  induction i with
  | zero => exact ⟨le_rfl, rfl, [], rfl, rfl⟩
  | succ i ih =>
    have hbefore := ih (Nat.le_of_succ_le hi)
    have hclosed := hbraces.count_le hi
    have hsome := hnested.isSome hi
    rw [depthBefore, signsBefore_succ, List.foldl_append]
    rw [signsBefore_succ] at hclosed hsome
    cases hsign : signAt c i with
    | none =>
      rw [Option.toList_none, List.append_nil]
      exact hbefore
    | some s =>
      rw [hsign] at hclosed hsome
      exact hbefore.step hclosed hsome

theorem ends_iff {i : Nat} (hbraces : BracesBalanced c) (hnested : WellNested c)
    (hi : i ≤ c.length) :
    Ends c i ↔ Outside c i ∧ ∀ s ∈ signsBefore c i, ¬ s.MerelyBegins := by
  obtain ⟨hclosed, hdepth, names, hnames, henvironments⟩ := counted hbraces hnested hi
  have hstrays : ((signsBefore c i).countP fun s => s.MerelyBegins) = 0 ↔
      ∀ s ∈ signsBefore c i, ¬ s.MerelyBegins := by
    rw [List.countP_eq_zero]
    simp
  rw [Ends, Depth.isTop, Bool.and_eq_true, beq_iff_eq, beq_iff_eq, hdepth, henvironments, Outside,
    hnames, Option.some.injEq, ← List.length_eq_zero_iff, ← hstrays]
  omega

theorem rowsBetween_congr {p q : Nat → Prop} [DecidablePred p] [DecidablePred q]
    (h : ∀ i ≤ c.length, p i ↔ q i) : rowsBetween c p = rowsBetween c q := by
  have hfilter : ((List.range c.length).filter fun i => signAt c i = some .separator ∧ p i) =
      (List.range c.length).filter fun i => signAt c i = some .separator ∧ q i := by
    refine List.filter_congr fun i hi => ?_
    simp only [h i (List.mem_range.mp hi).le]
  rw [rowsBetween, rowsBetween, hfilter]

/-- **Rows end outside braces and environments,** where braces are balanced and environments are
    nested: at the double backslashes outside all of them, as long as no word that merely begins
    with `begin` has come.  Behind such a word the row goes on to the end of the formula. -/
theorem split_of_wellNested (hbraces : BracesBalanced c) (hnested : WellNested c) :
    split c = rowsBetween c (fun i => Outside c i ∧ ∀ s ∈ signsBefore c i, ¬ s.MerelyBegins) ∧
    ((∀ s ∈ signsBefore c c.length, ¬ s.MerelyBegins) → split c = rowsBetween c (Outside c)) := by
  have hrows (i : Nat) (hi : i ≤ c.length) := ends_iff hbraces hnested hi
  constructor
  · rw [split_eq_rowsBetween]
    exact rowsBetween_congr hrows
  · intro hnone
    rw [split_eq_rowsBetween]
    refine rowsBetween_congr fun i hi => (hrows i hi).trans (and_iff_left fun s hs => ?_)
    exact hnone s ((signsBefore_isPrefix hi).subset hs)

/-- A double backslash in a matrix ends no row of the formula around it. -/
theorem split_of_wellNested_matrix :
    let c : Text := "a & \\begin{matrix} b \\\\ c \\end{matrix} \\\\ d".toList
    BracesBalanced c ∧ WellNested c ∧ (∀ s ∈ signsBefore c c.length, ¬ s.MerelyBegins) ∧
    split c = rowsBetween c (Outside c) ∧
    rowsBetween c (Outside c) =
      ["a & \\begin{matrix} b \\\\ c \\end{matrix}".toList, "d".toList] := by
  have hbraces : BracesBalanced
      "a & \\begin{matrix} b \\\\ c \\end{matrix} \\\\ d" := by decide +kernel
  have hnested : WellNested
      "a & \\begin{matrix} b \\\\ c \\end{matrix} \\\\ d" := by decide +kernel
  refine ⟨hbraces, hnested, by decide +kernel, ?_, by decide +kernel⟩
  exact (split_of_wellNested hbraces hnested).2 (by decide +kernel)

/-- Here no environment is open, but the word `\begingroup` keeps the rows together. -/
theorem rows_merged_by_begingroup :
    let c : Text := "\\begingroup a\\endgroup \\\\ b".toList
    BracesBalanced c ∧ WellNested c ∧
    rowsBetween c (Outside c) = ["\\begingroup a\\endgroup".toList, "b".toList] ∧
    split c = ["\\begingroup a\\endgroup \\\\ b".toList] := by
  decide +kernel

end TexMark.Rows
