/-
  TexMark/Proofs/Number/Rounding.lean
  ===================================
  **Rounded decimals.**  A fraction is rounded to a nearest natural number, and to the even one
  if there are two (`nearest_round`); there is but one such number (`Nearest.unique`).  Written with
  a fixed count of places, a fraction has exactly so many digits behind its point, and all its
  digits together are those of the fraction that is scaled and rounded (`fixedText_spec`).
-/
import Mathlib.Tactic.Ring
import TexMark.Number.Rounded

namespace TexMark.Binary64

/-! ### Nearest numbers -/

/-- A natural number is **nearest** to a fraction: it is no further off than a half, and even if
    it is just that far off. -/
structure Fraction.Nearest (q : Fraction) (n : Nat) : Prop where
  not_above : 2 * n * q.den ≤ 2 * q.num + q.den
  not_below : 2 * q.num ≤ (2 * n + 1) * q.den
  even_of_tie : 2 * n * q.den = 2 * q.num + q.den ∨ 2 * q.num = (2 * n + 1) * q.den → n % 2 = 0

theorem Fraction.nearest_round {q : Fraction} (hq : 0 < q.den) : q.Nearest q.round := by
  obtain ⟨num, den⟩ := q
  have hden : 0 < den := hq
  have hdiv : den * (num / den) + num % den = num := Nat.div_add_mod num den
  have hmod : num % den < den := Nat.mod_lt num hden
  unfold Fraction.round
  generalize num / den = low at hdiv
  generalize num % den = r at hdiv hmod
  -- the products are linear in the product of the whole part and the denominator
  have hlow : 2 * low * den = 2 * (den * low) := by ring
  have hlow' : (2 * low + 1) * den = 2 * (den * low) + den := by ring
  have hhigh : 2 * (low + 1) * den = 2 * (den * low) + 2 * den := by ring
  have hhigh' : (2 * (low + 1) + 1) * den = 2 * (den * low) + 3 * den := by ring
  dsimp only
  split
  · exact ⟨by dsimp only; omega, by dsimp only; omega, fun h => by dsimp only at h; omega⟩
  · split
    · exact ⟨by dsimp only; omega, by dsimp only; omega, fun h => by dsimp only at h; omega⟩
    · split
      · rename_i heven
        exact ⟨by dsimp only; omega, by dsimp only; omega, fun _ => heven⟩
      · exact ⟨by dsimp only; omega, by dsimp only; omega, fun _ => by omega⟩

theorem Fraction.Nearest.unique {q : Fraction} (hq : 0 < q.den) {m n : Nat} (hm : q.Nearest m)
    (hn : q.Nearest n) : m = n := by
  -- of two different ones the lower is half below, the upper half above, and both are even
  have hless : ∀ {m n : Nat}, q.Nearest m → q.Nearest n → ¬ m < n := by
    intro m n hm hn hlt
    obtain ⟨k, rfl⟩ : ∃ k, n = m + 1 + k := ⟨n - (m + 1), by omega⟩
    have hupper : 2 * (m + 1 + k) * q.den = (2 * m + 1) * q.den + q.den + 2 * (k * q.den) := by
      ring
    have habove := hn.not_above
    have hbelow := hm.not_below
    have hk : k * q.den = 0 := by omega
    have hzero : k = 0 := by
      rcases Nat.mul_eq_zero.mp hk with h | h
      · exact h
      · omega
    have heven := hm.even_of_tie (.inr (by omega))
    have heven' := hn.even_of_tie (.inl (by omega))
    omega
  have hmn := hless hm hn
  have hnm := hless hn hm
  omega

/-! ### Digits -/

/-- The number that digits are read as. -/
def valueOf (digits : Text) : Nat := Nat.ofDigitChars 10 digits 0

theorem valueOf_ofNat (n : Nat) : valueOf (Text.ofNat n) = n :=
  Nat.ofDigitChars_toDigits (by decide) (by decide)

theorem valueOf_append_zeros (digits : Text) (k : Nat) :
    valueOf (digits ++ zeros k) = 10 ^ k * valueOf digits := by
  rw [valueOf, Nat.ofDigitChars_append, zeros, Nat.ofDigitChars_replicate_zero]
  rfl

theorem valueOf_zeros_append (k : Nat) (digits : Text) :
    valueOf (zeros k ++ digits) = valueOf digits := by
  rw [valueOf, Nat.ofDigitChars_append, zeros, Nat.ofDigitChars_replicate_zero, Nat.mul_zero]
  rfl

theorem isDigit_of_mem_zeros {k : Nat} {c : Char} (hc : c ∈ zeros k) : c.isDigit := by
  rw [List.eq_of_mem_replicate hc]
  decide

theorem isDigit_of_mem_digitsAt {power : Int} {more : Nat} {q : Fraction} {c : Char}
    (hc : c ∈ digitsAt power more q) : c.isDigit := by
  rcases List.mem_append.mp hc with hc | hc
  · exact Nat.isDigit_of_mem_toDigits (by decide) (by decide) hc
  · exact isDigit_of_mem_zeros hc

/-- **A decimal with a fixed count of places** has so many digits behind its point and at least one
    before it. Its digits are those of a nearest number to the fraction times the power of ten for
    these places, where no more places are looked at than numbers of the format have. -/
theorem fixedText_spec (places : Nat) (barePoint : Bool) {q : Fraction} (hq : 0 < q.den) :
    ∃ whole behind n, fixedText places barePoint q =
        whole ++ (if places = 0 then if barePoint then ['.'] else [] else '.' :: behind) ∧
      whole ≠ [] ∧ behind.length = places ∧ (∀ c ∈ whole ++ behind, c.isDigit) ∧
      (q.scale 10 (min places maxDigits : Nat)).Nearest n ∧
      valueOf (whole ++ behind) = 10 ^ (places - maxDigits) * n := by
  let digits := digitsAt (min places maxDigits : Nat) (places - maxDigits) q
  let filled := zeros (places + 1 - digits.length) ++ digits
  have hlength : places + 1 ≤ filled.length := by
    simp only [filled, List.length_append, zeros, List.length_replicate]
    omega
  have hden : 0 < (q.scale 10 (min places maxDigits : Nat)).den := by
    simpa [Fraction.scale] using hq
  refine ⟨filled.take (filled.length - places), filled.drop (filled.length - places), _, rfl, ?_,
    ?_, ?_, Fraction.nearest_round hden, ?_⟩
  · intro hnil
    have := congrArg List.length hnil
    simp only [List.length_take, List.length_nil] at this
    omega
  · rw [List.length_drop]
    omega
  · rw [List.take_append_drop]
    intro c hc
    rcases List.mem_append.mp hc with hc | hc
    · exact isDigit_of_mem_zeros hc
    · exact isDigit_of_mem_digitsAt hc
  · rw [List.take_append_drop, valueOf_zeros_append]
    exact (valueOf_append_zeros _ _).trans (by rw [valueOf_ofNat])

example : fixedText 2 false ⟨5, 8⟩ = "0.62" := by decide

end TexMark.Binary64
