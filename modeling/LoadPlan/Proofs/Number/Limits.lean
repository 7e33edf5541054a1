import Mathlib.Algebra.Order.Field.Power
import Mathlib.Data.Rat.Floor
import LoadPlan.Number.Double
import LoadPlan.Number.Integer

/-! Which magnitudes are too large for a double, and which integers are too long to be written. -/
namespace LoadPlan.Number

theorem Integer.text?_eq_none_iff (n : Int) : text? n = none ↔ 10 ^ digitLimit ≤ n.natAbs := by
  have hlength : (Nat.repr n.natAbs).length ≤ digitLimit ↔ n.natAbs < 10 ^ digitLimit := by
    rw [Nat.repr, String.length_ofList]
    exact Nat.length_toDigits_le_iff (by decide) (by decide)
  unfold text?
  split <;> simp <;> omega

namespace Double

/-- An integer is less than half a unit away, or it is the even one of two at that distance. -/
theorem nearestEven_error (x : Rat) :
    |(nearestEven x : Rat) - x| < 1 / 2 ∨ |(nearestEven x : Rat) - x| = 1 / 2 ∧ nearestEven x % 2 = 0 := by
  have hlo := Int.floor_le x
  have hhi := Int.lt_floor_add_one x
  have hf : x.floor = ⌊x⌋ := rfl
  unfold nearestEven
  rw [hf]
  dsimp only
  split_ifs with hdown hup
  · rw [abs_of_nonpos (by linarith)]
    exact .inl (by linarith)
  · push_cast
    rw [abs_of_nonneg (by linarith)]
    exact .inl (by linarith)
  · have htie : x = ⌊x⌋ + 1 / 2 := by linarith
    refine .inr ⟨?_, by omega⟩
    rcases Int.emod_two_eq_zero_or_one ⌊x⌋ with hm | hm
    · rw [hm, add_zero, abs_of_nonpos (by linarith)]
      linarith
    · rw [hm]
      push_cast
      rw [abs_of_nonneg (by linarith)]
      linarith

/-- Half way between two integers goes to the even one. -/
theorem nearestEven_eq_iff {k : Int} (hk : k % 2 = 0) (x : Rat) :
    nearestEven x = k ↔ (k : Rat) - 1 / 2 ≤ x ∧ x ≤ k + 1 / 2 := by
  have herror := nearestEven_error x
  constructor
  · rintro rfl
    have hle : |(nearestEven x : Rat) - x| ≤ 1 / 2 := herror.elim le_of_lt fun h => h.1.le
    obtain ⟨hlo, hhi⟩ := abs_le.mp hle
    constructor <;> linarith
  · rintro ⟨hlo, hhi⟩
    have hle : |(k : Rat) - x| ≤ 1 / 2 := abs_le.mpr ⟨by linarith, by linarith⟩
    have hapart := abs_sub_le (nearestEven x : Rat) x k
    rw [abs_sub_comm x] at hapart
    rcases herror with hlt | ⟨heq, heven⟩
    · have hclose : |(nearestEven x : Rat) - k| < 1 := by linarith
      exact sub_eq_zero.mp (Int.abs_lt_one_iff.mp (by exact_mod_cast hclose))
    · -- Two even numbers are not one apart.
      have hclose : |(nearestEven x : Rat) - k| ≤ 1 := by linarith
      have hclose' : |nearestEven x - k| ≤ 1 := by exact_mod_cast hclose
      obtain ⟨hlow, hhigh⟩ := abs_le.mp hclose'
      omega

theorem significandLimit_mul_zpow (e : Int) : (significandLimit : Rat) * 2 ^ e = 2 ^ (e + 53) := by
  have hl : (significandLimit : Rat) = 2 ^ (53 : Int) := by norm_num [significandLimit, precision]
  rw [hl, ← zpow_add₀ (by norm_num), add_comm]

/-- A quotient lies between powers of two that the lengths of its terms tell. -/
theorem div_between {n d : Nat} (hn : n ≠ 0) (hd : d ≠ 0) :
    (2 : Rat) ^ ((n.log2 : Int) - d.log2 - 1) < n / d ∧ (n : Rat) / d < 2 ^ ((n.log2 : Int) - d.log2 + 1) := by
  have hpos : (0 : Rat) < d := by exact_mod_cast Nat.pos_of_ne_zero hd
  have hnlo : (2 : Rat) ^ (n.log2 : Int) ≤ n := by exact_mod_cast Nat.log2_self_le hn
  have hnhi : (n : Rat) < 2 ^ ((n.log2 : Int) + 1) := by exact_mod_cast Nat.lt_log2_self
  have hdlo : (2 : Rat) ^ (d.log2 : Int) ≤ d := by exact_mod_cast Nat.log2_self_le hd
  have hdhi : (d : Rat) < 2 ^ ((d.log2 : Int) + 1) := by exact_mod_cast Nat.lt_log2_self
  constructor
  · rw [lt_div_iff₀ hpos]
    calc (2 : Rat) ^ ((n.log2 : Int) - d.log2 - 1) * d
        < 2 ^ ((n.log2 : Int) - d.log2 - 1) * 2 ^ ((d.log2 : Int) + 1) := by gcongr
      _ = 2 ^ (n.log2 : Int) := by
        rw [← zpow_add₀ (by norm_num)]
        congr 1
        omega
      _ ≤ n := hnlo
  · rw [div_lt_iff₀ hpos]
    calc (n : Rat) < 2 ^ ((n.log2 : Int) + 1) := hnhi
      _ = 2 ^ ((n.log2 : Int) - d.log2 + 1) * 2 ^ (d.log2 : Int) := by
        rw [← zpow_add₀ (by norm_num)]
        congr 1
        omega
      _ ≤ 2 ^ ((n.log2 : Int) - d.log2 + 1) * d := by gcongr

/-- At an exponent a magnitude has a significand of full length, or else the exponent is the least. -/
structure Fits (x : Rat) (e : Int) : Prop where
  least : leastExponent ≤ e
  lt : x < 2 ^ (e + 53)
  full : e = leastExponent ∨ 2 ^ (e + 52) ≤ x

theorem exponentOf_fits {x : Rat} (hx : 0 < x) : Fits x (exponentOf x) := by
  have hnum : 0 < x.num := Rat.num_pos.mpr hx
  have hcast : (x.num.toNat : Rat) = x.num := by exact_mod_cast Int.toNat_of_nonneg hnum.le
  obtain ⟨hlo, hhi⟩ := div_between (n := x.num.toNat) (by omega) x.den_nz
  rw [hcast, Rat.num_div_den] at hlo hhi
  unfold exponentOf
  simp only [significandLimit_mul_zpow, precision]
  generalize (x.num.toNat.log2 : Int) - x.den.log2 = a at *
  split_ifs with hlt
  · refine ⟨le_max_right _ _, hlt, ?_⟩
    rcases max_choice (a - 53) leastExponent with hmax | hmax
    · refine .inr ?_
      have hexp : max (a - 53) leastExponent + 52 = a - 1 := by omega
      push_cast
      rw [hexp]
      exact hlo.le
    · exact .inl hmax
  · have heq : max (a - 53) leastExponent + 53 = a := by
      by_contra hne
      have hle : a + 1 ≤ max (a - 53) leastExponent + 53 := by omega
      exact hlt (hhi.trans_le (zpow_le_zpow_right₀ (by norm_num) hle))
    push_cast at *
    refine ⟨by omega, ?_, .inr ?_⟩
    · rw [show max (a - 53) leastExponent + 1 + 53 = a + 1 by omega]
      exact hhi
    · rw [show max (a - 53) leastExponent + 1 + 52 = max (a - 53) leastExponent + 53 by omega]
      exact not_lt.mp hlt

/-- A magnitude is too large if its exponent is, or if it is rounded up from the greatest exponent. -/
theorem isFinite_ofMagnitude_iff (negative : Bool) {x : Rat} (hx : 0 < x) :
    (ofMagnitude negative x).isFinite = true ↔
      exponentOf x < 971 ∨ exponentOf x = 971 ∧ nearestEven (x / 2 ^ (971 : Int)) ≠ significandLimit := by
  have htoNat : ∀ k : Int, k.toNat = significandLimit ↔ k = significandLimit := by
    intro k
    have : 0 < significandLimit := by decide
    omega
  unfold ofMagnitude
  rw [if_neg (not_le.mpr hx)]
  simp only [htoNat, greatestExponent]
  by_cases hm : nearestEven (x / 2 ^ exponentOf x) = significandLimit
  · rw [if_pos hm]
    simp only
    split
    · next h =>
      simp only [isFinite, Bool.false_eq_true, false_iff, not_or, not_and, not_not]
      refine ⟨by omega, fun he => ?_⟩
      rwa [he] at hm
    · next h =>
      simp only [isFinite, true_iff]
      omega
  · rw [if_neg hm]
    simp only
    split
    · next h =>
      simp only [isFinite, Bool.false_eq_true, false_iff]
      omega
    · next h =>
      simp only [isFinite, true_iff]
      obtain he | he : exponentOf x < 971 ∨ exponentOf x = 971 := by omega
      · exact .inl he
      · exact .inr ⟨he, he ▸ hm⟩

/-- The least integer without a double: it is as near to the power of two beyond them as to the greatest. -/
def tooLarge : Nat := (2 ^ 54 - 1) * 2 ^ 970

theorem tooLarge_eq : (tooLarge : Rat) = (2 ^ 53 - 1 / 2) * 2 ^ (971 : Int) := by
  rw [show (971 : Int) = (970 : Nat) + 1 by norm_num, zpow_add_one₀ (by norm_num), zpow_natCast, tooLarge]
  generalize 970 = k
  push_cast [Nat.one_le_two_pow]
  ring

theorem isFinite_ofMagnitude_iff_lt (negative : Bool) (x : Rat) :
    (ofMagnitude negative x).isFinite = true ↔ x < tooLarge := by
  have hunit : (0 : Rat) < 2 ^ (971 : Int) := zpow_pos (by norm_num) _
  have hpower : ∀ k : Int, (2 : Rat) ^ (971 + k) = 2 ^ k * 2 ^ (971 : Int) := by
    intro k
    rw [add_comm, zpow_add₀ (by norm_num)]
  rcases le_or_gt x 0 with hx | hx
  · have hzero : (ofMagnitude negative x).isFinite = true := by simp [ofMagnitude, hx, isFinite]
    refine iff_of_true hzero (hx.trans_lt ?_)
    rw [tooLarge_eq]
    exact mul_pos (by norm_num) hunit
  obtain ⟨-, hlt, hfull⟩ := exponentOf_fits hx
  rw [isFinite_ofMagnitude_iff negative hx, tooLarge_eq]
  rcases lt_trichotomy (exponentOf x) 971 with he | he | he
  · have hle : (2 : Rat) ^ (exponentOf x + 53) ≤ 2 ^ (971 + 52 : Int) :=
      zpow_le_zpow_right₀ (by norm_num) (by omega)
    rw [hpower] at hle
    refine iff_of_true (.inl he) ?_
    generalize (2 : Rat) ^ (971 : Int) = unit at *
    linarith
  · have hlimit : (((2 : Int) ^ 53 : Int) : Rat) = 2 ^ 53 := by norm_num
    rw [he, hpower] at hlt
    simp only [he, lt_irrefl, true_and, false_or]
    rw [show (significandLimit : Int) = 2 ^ 53 by decide, Ne, nearestEven_eq_iff (by decide), hlimit,
      le_div_iff₀ hunit, div_le_iff₀ hunit]
    generalize (2 : Rat) ^ (971 : Int) = unit at *
    constructor
    · intro h
      by_contra hge
      exact h ⟨by linarith, by linarith⟩
    · rintro h ⟨hge, -⟩
      linarith
  · have hge : (2 : Rat) ^ (971 + 53 : Int) ≤ 2 ^ (exponentOf x + 52) :=
      zpow_le_zpow_right₀ (by norm_num) (by omega)
    have hle : 2 ^ (exponentOf x + 52) ≤ x := hfull.resolve_left (by rw [leastExponent]; omega)
    rw [hpower] at hge
    refine iff_of_false (by omega) ?_
    generalize (2 : Rat) ^ (971 : Int) = unit at *
    linarith

theorem ofInt?_isSome (n : Int) : (ofInt? n).isSome = (ofRat n).isFinite := by
  have hnan : ∀ negative x, ofMagnitude negative x ≠ .nan := by
    intro negative x
    unfold ofMagnitude
    split
    · simp
    · simp only
      split <;> split <;> simp
  have hrat : ofRat n ≠ .nan := by
    unfold ofRat
    split <;> exact hnan _ _
  unfold ofInt?
  cases h : ofRat n with
  | nan => exact absurd h hrat
  | infinite s => rfl
  | finite s m e => rfl

theorem ofInt?_eq_none_iff (n : Int) : ofInt? n = none ↔ tooLarge ≤ n.natAbs := by
  have hfinite : (ofRat n).isFinite = true ↔ n.natAbs < tooLarge := by
    unfold ofRat
    split
    · next hn =>
      have habs : -(n : Rat) = (n.natAbs : Nat) := by
        have hn : n < 0 := by exact_mod_cast hn
        rw [← Int.cast_neg, ← Int.cast_natCast, Int.ofNat_natAbs_of_nonpos hn.le]
      rw [habs, isFinite_ofMagnitude_iff_lt, Nat.cast_lt]
    · next hn =>
      have habs : (n : Rat) = (n.natAbs : Nat) := by
        have hn : 0 ≤ n := by exact_mod_cast not_lt.mp hn
        rw [← Int.cast_natCast, Int.natAbs_of_nonneg hn]
      rw [habs, isFinite_ofMagnitude_iff_lt, Nat.cast_lt]
  rw [← Option.not_isSome_iff_eq_none, ofInt?_isSome, hfinite, Nat.not_lt]

end Double
end LoadPlan.Number
