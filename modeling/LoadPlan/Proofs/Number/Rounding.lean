import Mathlib.Tactic.FieldSimp
import LoadPlan.Number.Decimal
import LoadPlan.Proofs.Number.Limits

/-! Magnitudes are rounded to the nearest double, ties to an even significand, and so are numerals. -/
namespace LoadPlan.Number

namespace Double

/-! Integers nearest to a rational. -/

theorem floor_le_nearestEven (x : Rat) : ⌊x⌋ ≤ nearestEven x := by
  have hf : x.floor = ⌊x⌋ := rfl
  unfold nearestEven
  rw [hf]
  dsimp only
  split_ifs <;> omega

/-- Every other integer is as far away at least, and at the same distance only if this one is even. -/
theorem nearestEven_nearest (x : Rat) {k : Int} (hk : k ≠ nearestEven x) :
    |(nearestEven x : Rat) - x| ≤ |(k : Rat) - x| ∧
      (|(nearestEven x : Rat) - x| = |(k : Rat) - x| → nearestEven x % 2 = 0) := by
  have hapart : (1 : Rat) ≤ |(k : Rat) - nearestEven x| := by
    exact_mod_cast Int.one_le_abs (sub_ne_zero.mpr hk)
  have htriangle := abs_sub_le (k : Rat) x (nearestEven x)
  rw [abs_sub_comm x] at htriangle
  rcases nearestEven_error x with hlt | ⟨heq, heven⟩
  · exact ⟨by linarith, fun heq => by linarith⟩
  · exact ⟨by linarith, fun _ => heven⟩

/-- Multiples of a unit are as near to a magnitude as their numbers to the magnitude in that unit. -/
theorem abs_mul_sub {unit : Rat} (hunit : 0 < unit) (a x : Rat) : |a * unit - x| = |a - x / unit| * unit := by
  rw [← abs_of_pos hunit, ← abs_mul, abs_of_pos hunit]
  congr 1
  field_simp

/-! Doubles nearest to a magnitude. -/

/-- A significand and an exponent within the bounds. -/
structure InRange (m : Nat) (e : Int) : Prop where
  lt : m < significandLimit
  least : leastExponent ≤ e
  greatest : e ≤ greatestExponent

/-- The significand is of full length, or else the exponent is the least. -/
structure Canonical (m : Nat) (e : Int) : Prop extends InRange m e where
  full : e = leastExponent ∨ significandLimit / 2 ≤ m

/-- No finite double is nearer to a magnitude, and one of another value is as near only if the significand of this one
is even. -/
structure Nearest (x : Rat) (m : Nat) (e : Int) : Prop where
  canonical : Canonical m e
  nearest : ∀ n f, InRange n f → |magnitude m e - x| ≤ |magnitude n f - x|
  even : ∀ n f, InRange n f → magnitude n f ≠ magnitude m e → |magnitude m e - x| = |magnitude n f - x| → m % 2 = 0

/-- A double is what a magnitude with a sign rounds to: infinity from the magnitude on that lies half way between the
greatest double and the power of two after it, and else the nearest. -/
def Rounds (negative : Bool) (x : Rat) : Double → Prop
  | .nan => False
  | .infinite s => s = negative ∧ tooLarge ≤ x
  | .finite s m e => s = negative ∧ x < tooLarge ∧ Nearest x m e

variable {x : Rat} {e : Int}

theorem significandLimit_half : ((significandLimit / 2 : Nat) : Rat) = 2 ^ (52 : Int) := by
  norm_num [significandLimit, precision]

/-- The doubles of lower exponents lie below those with a significand of full length. -/
theorem magnitude_lt {n : Nat} {f : Int} (hn : n < significandLimit) (hf : f < e) :
    magnitude n f < 2 ^ (e + 52) := by
  have hcast : (n : Rat) < significandLimit := by exact_mod_cast hn
  calc magnitude n f = n * (2 : Rat) ^ f := rfl
    _ < significandLimit * 2 ^ f := by gcongr
    _ = 2 ^ (f + 53) := significandLimit_mul_zpow f
    _ ≤ 2 ^ (e + 52) := zpow_le_zpow_right₀ (by norm_num) (by omega)

/-- The doubles of higher exponents are multiples of the unit of a lower one. -/
theorem magnitude_eq_mul {n : Nat} {f : Int} (hf : e ≤ f) :
    ∃ k : Int, magnitude n f = k * (2 : Rat) ^ e := by
  refine ⟨n * 2 ^ (f - e).toNat, ?_⟩
  have hsplit : (2 : Rat) ^ f = 2 ^ (f - e).toNat * 2 ^ e := by
    rw [← zpow_natCast, ← zpow_add₀ (by norm_num), Int.toNat_of_nonneg (by omega), sub_add_cancel]
  rw [magnitude, hsplit]
  push_cast
  ring

/-- Among all doubles none is nearer than the nearest multiple of the unit, and at the same distance from the
magnitude only if the number of units is even. -/
theorem Fits.nearest (h : Fits x e) {n : Nat} {f : Int} (hrange : InRange n f) :
    |(nearestEven (x / 2 ^ e) : Rat) * 2 ^ e - x| ≤ |magnitude n f - x| ∧
      (magnitude n f ≠ nearestEven (x / 2 ^ e) * (2 : Rat) ^ e →
        |(nearestEven (x / 2 ^ e) : Rat) * 2 ^ e - x| = |magnitude n f - x| →
          nearestEven (x / 2 ^ e) % 2 = 0) := by
  have hunit : (0 : Rat) < 2 ^ e := by positivity
  have hmultiple : ∀ k : Int, k ≠ nearestEven (x / 2 ^ e) →
      |(nearestEven (x / 2 ^ e) : Rat) * 2 ^ e - x| ≤ |(k : Rat) * 2 ^ e - x| ∧
        (|(nearestEven (x / 2 ^ e) : Rat) * 2 ^ e - x| = |(k : Rat) * 2 ^ e - x| →
          nearestEven (x / 2 ^ e) % 2 = 0) := by
    intro k hk
    obtain ⟨hle, heven⟩ := nearestEven_nearest (x / 2 ^ e) hk
    rw [abs_mul_sub hunit, abs_mul_sub hunit]
    exact ⟨by gcongr, fun heq => heven (mul_right_cancel₀ hunit.ne' heq)⟩
  rcases le_or_gt e f with hf | hf
  · obtain ⟨k, hk⟩ := magnitude_eq_mul (n := n) hf
    rw [hk]
    by_cases hsame : k = nearestEven (x / 2 ^ e)
    · rw [hsame]
      exact ⟨le_rfl, fun hne => absurd rfl hne⟩
    · exact ⟨(hmultiple k hsame).1, fun _ => (hmultiple k hsame).2⟩
  · -- The magnitude lies above the least double with this unit, and the other double below that.
    have hfull : 2 ^ (e + 52) ≤ x := h.full.resolve_left fun he => by
      have := hrange.least
      omega
    have hlt := magnitude_lt hrange.lt hf
    have hpower : (2 : Rat) ^ (e + 52) = ((2 ^ 52 : Int) : Rat) * 2 ^ e := by
      rw [add_comm, zpow_add₀ (by norm_num)]
      norm_num
    have hleast : |(nearestEven (x / 2 ^ e) : Rat) * 2 ^ e - x| ≤ |(2 : Rat) ^ (e + 52) - x| := by
      rw [hpower]
      by_cases hsame : (2 : Int) ^ 52 = nearestEven (x / 2 ^ e)
      · rw [← hsame]
      · exact (hmultiple _ hsame).1
    have hfarther : |(2 : Rat) ^ (e + 52) - x| < |magnitude n f - x| := by
      rw [abs_of_nonpos (by linarith), abs_of_nonpos (by linarith)]
      linarith
    exact ⟨by linarith, fun _ heq => by linarith⟩

/-- In its unit a magnitude has a significand of full length, or less at the least exponent. -/
theorem Fits.significand (h : Fits x e) (hx : 0 < x) :
    ∃ m : Nat, nearestEven (x / 2 ^ e) = m ∧ m ≤ significandLimit ∧
      (e = leastExponent ∨ significandLimit / 2 ≤ m) := by
  have hunit : (0 : Rat) < 2 ^ e := by positivity
  have hfloor := floor_le_nearestEven (x / 2 ^ e)
  have hpos : 0 ≤ ⌊x / 2 ^ e⌋ := Int.floor_nonneg.mpr (by positivity)
  obtain ⟨m, hm⟩ := Int.eq_ofNat_of_zero_le (hpos.trans hfloor)
  have hlt : x / 2 ^ e < significandLimit := by
    rw [div_lt_iff₀ hunit, significandLimit_mul_zpow]
    exact h.lt
  refine ⟨m, hm, ?_, ?_⟩
  · have herror : |(nearestEven (x / 2 ^ e) : Rat) - x / 2 ^ e| ≤ 1 / 2 := by
      rcases nearestEven_error (x / 2 ^ e) with hlt | ⟨heq, -⟩
      · exact hlt.le
      · exact heq.le
    have hup := (abs_le.mp herror).2
    have hcast : (m : Rat) < (significandLimit + 1 : Nat) := by
      rw [hm] at hup
      push_cast at *
      linarith
    exact Nat.le_of_lt_succ (by exact_mod_cast hcast)
  · refine h.full.imp_right fun hfull => ?_
    have hle : ((significandLimit / 2 : Nat) : Int) ≤ ⌊x / 2 ^ e⌋ := by
      rw [Int.le_floor, Int.cast_natCast, significandLimit_half, le_div_iff₀ hunit, ← zpow_add₀ (by norm_num),
        add_comm]
      exact hfull
    omega

/-- A double that has the value of the nearest multiple of the unit is nearest. -/
theorem Fits.rounds (h : Fits x e) (negative : Bool) {m n : Nat} {f : Int} (hm : nearestEven (x / 2 ^ e) = m)
    (hvalue : magnitude n f = m * (2 : Rat) ^ e) (hn : n < significandLimit) (hleast : leastExponent ≤ f)
    (hfull : f = leastExponent ∨ significandLimit / 2 ≤ n) (heven : m % 2 = 0 → n % 2 = 0)
    (heq : ofMagnitude negative x = if greatestExponent < f then .infinite negative else .finite negative n f) :
    Rounds negative x (ofMagnitude negative x) := by
  have hfinite := isFinite_ofMagnitude_iff_lt negative x
  have hnearest : ∀ k g, InRange k g → _ := fun k g => h.nearest (n := k) (f := g)
  rw [hm, Int.cast_natCast, ← hvalue] at hnearest
  rw [heq] at hfinite ⊢
  split_ifs with hf
  · rw [if_pos hf] at hfinite
    exact ⟨rfl, not_lt.mp fun hlt => absurd (hfinite.mpr hlt) Bool.false_ne_true⟩
  · rw [if_neg hf] at hfinite
    refine ⟨rfl, hfinite.mp rfl, ⟨⟨hn, hleast, not_lt.mp hf⟩, hfull⟩, fun k g hg => (hnearest k g hg).1, ?_⟩
    intro k g hg hother htie
    have hmeven := (hnearest k g hg).2 hother htie
    exact heven (by omega)

/-- A magnitude is rounded under its sign. -/
theorem ofMagnitude_rounds (negative : Bool) (hx : 0 ≤ x) : Rounds negative x (ofMagnitude negative x) := by
  rcases hx.eq_or_lt with rfl | hpos
  · have hfinite := isFinite_ofMagnitude_iff_lt negative 0
    have hzero : ofMagnitude negative 0 = .finite negative 0 leastExponent := by simp [ofMagnitude]
    have hexact : magnitude 0 leastExponent = 0 := by simp [magnitude]
    rw [hzero] at hfinite ⊢
    refine ⟨rfl, hfinite.mp rfl, ⟨⟨by decide, le_rfl, by decide⟩, .inl rfl⟩, fun n f _ => ?_, fun _ _ _ _ _ => rfl⟩
    rw [hexact, sub_zero, abs_zero]
    exact abs_nonneg _
  have hfits := exponentOf_fits hpos
  obtain ⟨m, hm, hle, hfull⟩ := hfits.significand hpos
  have heq : ofMagnitude negative x =
      let r := if m = significandLimit then (significandLimit / 2, exponentOf x + 1) else (m, exponentOf x)
      if greatestExponent < r.2 then .infinite negative else .finite negative r.1 r.2 := by
    rw [ofMagnitude, if_neg (not_le.mpr hpos)]
    simp only [hm, Int.toNat_natCast]
  by_cases hlimit : m = significandLimit
  · -- Rounded up to the limit, the significand is half of it at the next exponent.
    rw [if_pos hlimit] at heq
    refine hfits.rounds negative hm ?_ (by decide) (hfits.least.trans (by omega)) (.inr le_rfl)
      (fun _ => by decide) heq
    rw [magnitude, significandLimit_half, hlimit, significandLimit_mul_zpow, ← zpow_add₀ (by norm_num)]
    congr 1
    omega
  · rw [if_neg hlimit] at heq
    exact hfits.rounds negative hm rfl (by omega) hfits.least hfull id heq

/-! The double that a magnitude is rounded to is the only one. -/

variable {m n : Nat} {f : Int}

theorem le_magnitude (h : significandLimit / 2 ≤ m) (e : Int) : 2 ^ (e + 52) ≤ magnitude m e := by
  have hcast : (2 : Rat) ^ (52 : Int) ≤ m := by
    rw [← significandLimit_half]
    exact_mod_cast h
  rw [add_comm, zpow_add₀ (by norm_num), magnitude]
  gcongr

/-- Of canonical doubles the one of lower exponent is smaller. -/
theorem Canonical.lt_of_lt (hm : InRange m e) (hn : Canonical n f) (h : e < f) : magnitude m e < magnitude n f :=
  (magnitude_lt hm.lt h).trans_le (le_magnitude (hn.full.resolve_left fun hf => by
    have := hm.least
    omega) f)

theorem Canonical.eq (hm : Canonical m e) (hn : Canonical n f) (h : magnitude m e = magnitude n f) :
    m = n ∧ e = f := by
  obtain rfl : e = f := by
    rcases lt_trichotomy e f with hlt | heq | hlt
    · exact absurd h (hn.lt_of_lt hm.toInRange hlt).ne
    · exact heq
    · exact absurd h (hm.lt_of_lt hn.toInRange hlt).ne'
  have hunit : (2 : Rat) ^ e ≠ 0 := by positivity
  exact ⟨by exact_mod_cast mul_right_cancel₀ hunit h, rfl⟩

/-- Two doubles are not both nearest: if they were, and next to each other, one would have an odd significand. -/
theorem Nearest.not_below (hm : Nearest x m e) (hn : Nearest x n f) : ¬magnitude m e < magnitude n f := by
  intro hlt
  have hcm := hm.canonical
  have hcn := hn.canonical
  have htie : |magnitude m e - x| = |magnitude n f - x| :=
    le_antisymm (hm.nearest n f hcn.toInRange) (hn.nearest m e hcm.toInRange)
  have hmeven : m % 2 = 0 := hm.even n f hcn.toInRange hlt.ne' htie
  have hneven : n % 2 = 0 := hn.even m e hcm.toInRange hlt.ne htie.symm
  have hmid : x = (magnitude m e + magnitude n f) / 2 := by
    rcases abs_eq_abs.mp htie with heq | heq <;> linarith
  have hlimit : significandLimit = 2 * (significandLimit / 2) := by decide
  have hnext : Canonical (m + 1) e :=
    ⟨⟨by have := hcm.lt; omega, hcm.least, hcm.greatest⟩, hcm.full.imp_right Nat.le_succ_of_le⟩
  have hstep : magnitude (m + 1) e = magnitude m e + 2 ^ e := by
    rw [magnitude, magnitude]
    push_cast
    ring
  have hunit : (0 : Rat) < 2 ^ e := by positivity
  have hle : magnitude (m + 1) e ≤ magnitude n f := by
    obtain ⟨k, hk⟩ := magnitude_eq_mul (n := n) (f := f) (e := e)
      (le_of_not_gt fun hf => absurd (hcm.lt_of_lt hcn.toInRange hf) (lt_asymm hlt))
    rw [hk] at hlt ⊢
    have hcast : (m : Rat) < k := lt_of_mul_lt_mul_right hlt hunit.le
    have hmk : (m : Int) < k := by exact_mod_cast hcast
    have hsucc : ((m + 1 : Nat) : Rat) ≤ k := by exact_mod_cast Int.add_one_le_of_lt hmk
    exact mul_le_mul_of_nonneg_right hsucc hunit.le
  rcases hle.eq_or_lt with heq | hbetween
  · have := (hnext.eq hcn heq).1
    omega
  · have hnearer := hm.nearest (m + 1) e hnext.toInRange
    have hcloser : |magnitude (m + 1) e - x| < x - magnitude m e := by
      rw [abs_lt]
      constructor <;> linarith
    rw [abs_of_neg (by linarith)] at hnearer
    linarith

theorem Nearest.eq (hm : Nearest x m e) (hn : Nearest x n f) : m = n ∧ e = f :=
  hm.canonical.eq hn.canonical (le_antisymm (not_lt.mp (hn.not_below hm)) (not_lt.mp (hm.not_below hn)))

theorem Rounds.isFinite_iff {negative : Bool} {a : Double} (h : Rounds negative x a) :
    a.isFinite = true ↔ x < tooLarge := by
  cases a with
  | nan => exact h.elim
  | infinite s => exact iff_of_false Bool.false_ne_true (not_lt.mpr h.2)
  | finite s m e => exact iff_of_true rfl h.2.1

theorem Rounds.eq {negative : Bool} {a b : Double} (ha : Rounds negative x a) (hb : Rounds negative x b) :
    a = b := by
  cases a <;> cases b <;> simp only [Rounds] at ha hb
  · rw [ha.1, hb.1]
  · exact absurd hb.2.1 (not_lt.mpr ha.2)
  · exact absurd ha.2.1 (not_lt.mpr hb.2)
  · obtain ⟨rfl, rfl⟩ := ha.2.2.eq hb.2.2
    rw [ha.1, hb.1]

theorem tooLarge_le : (tooLarge : Rat) ≤ 2 ^ (1024 : Int) := by
  have hpower : (2 : Rat) ^ (1024 : Int) = 2 ^ 53 * 2 ^ (971 : Int) := by
    rw [show (1024 : Int) = (53 : Nat) + 971 by norm_num, zpow_add₀ (by norm_num), zpow_natCast]
  rw [tooLarge_eq, hpower]
  exact mul_le_mul_of_nonneg_right (by norm_num) (zpow_nonneg (by norm_num) _)

theorem ofMagnitude_of_tooLarge (negative : Bool) (hx : tooLarge ≤ x) :
    ofMagnitude negative x = .infinite negative :=
  (ofMagnitude_rounds negative ((Nat.cast_nonneg _).trans hx)).eq (b := .infinite negative) ⟨rfl, hx⟩

/-- Magnitudes of half the least positive double at most are rounded to zero. -/
theorem ofMagnitude_of_le (negative : Bool) (hx : 0 ≤ x) (hle : x ≤ 2 ^ (-1075 : Int)) :
    ofMagnitude negative x = ofMagnitude negative 0 := by
  rcases hx.eq_or_lt with rfl | hpos
  · rfl
  have he : exponentOf x = leastExponent := by
    refine (exponentOf_fits hpos).full.resolve_right fun hfull => ?_
    have hexp := (zpow_le_zpow_iff_right₀ (by norm_num : (1 : Rat) < 2)).mp (hfull.trans hle)
    have hleast := (exponentOf_fits hpos).least
    rw [leastExponent] at hleast
    omega
  have hzero : nearestEven (x / 2 ^ leastExponent) = 0 := by
    have hunit : (0 : Rat) < 2 ^ leastExponent := by positivity
    have hhalf : (1 / 2 : Rat) * 2 ^ leastExponent = 2 ^ (-1075 : Int) := by
      rw [show (1 / 2 : Rat) = 2 ^ (-1 : Int) by norm_num, ← zpow_add₀ (by norm_num)]
      rfl
    have hquotient : x / 2 ^ leastExponent ≤ 1 / 2 := by
      rw [div_le_iff₀ hunit, hhalf]
      exact hle
    rw [nearestEven_eq_iff (by decide)]
    push_cast
    exact ⟨by linarith [div_nonneg hx hunit.le], by linarith⟩
  rw [ofMagnitude, if_neg (not_le.mpr hpos), ofMagnitude, if_pos le_rfl]
  simp only [he, hzero]
  rfl

end Double

namespace Decimal

/-- The magnitude of a numeral. -/
def magnitude (d : Decimal) : Rat :=
  d.digits * (10 : Rat) ^ d.exponent

theorem magnitude_nonneg (d : Decimal) : 0 ≤ d.magnitude := by
  unfold magnitude
  positivity

theorem eight_zpow (k : Int) : (8 : Rat) ^ k = 2 ^ (3 * k) := by
  rw [zpow_mul]
  norm_num

/-- Where the power of ten is not computed, the double is the same. -/
theorem toDouble_eq (d : Decimal) : d.toDouble = .ofMagnitude d.negative d.magnitude := by
  obtain ⟨negative, n, k⟩ := d
  unfold toDouble magnitude
  dsimp only
  split_ifs with hn hlarge hsmall
  · rw [hn, Nat.cast_zero, zero_mul]
  · refine (Double.ofMagnitude_of_tooLarge negative ?_).symm
    have hone : (1 : Rat) ≤ n := by exact_mod_cast Nat.pos_of_ne_zero hn
    calc (Double.tooLarge : Rat) ≤ 2 ^ (1024 : Int) := Double.tooLarge_le
      _ ≤ 2 ^ (3 * k) := zpow_le_zpow_right₀ (by norm_num) (by omega)
      _ = 8 ^ k := (eight_zpow k).symm
      _ ≤ 10 ^ k := zpow_le_zpow_left₀ (by omega) (by norm_num) (by norm_num)
      _ ≤ n * 10 ^ k := le_mul_of_one_le_left (by positivity) hone
  · refine (Double.ofMagnitude_of_le negative (by positivity) ?_).symm
    have hlength : (n : Rat) ≤ 2 ^ ((n.log2 : Int) + 1) := by exact_mod_cast Nat.lt_log2_self.le
    have hpower : (10 : Rat) ^ k ≤ 8 ^ k := by
      rw [← inv_le_inv₀ (by positivity) (by positivity), ← zpow_neg, ← zpow_neg]
      exact zpow_le_zpow_left₀ (by omega) (by norm_num) (by norm_num)
    calc (n : Rat) * 10 ^ k ≤ 2 ^ ((n.log2 : Int) + 1) * 8 ^ k := by gcongr
      _ = 2 ^ ((n.log2 : Int) + 1 + 3 * k) := by rw [eight_zpow, zpow_add₀ (by norm_num) _ (3 * k)]
      _ ≤ 2 ^ (-1075 : Int) := zpow_le_zpow_right₀ (by norm_num) (by omega)
  · rfl

/-- A numeral stands for the double that its magnitude is rounded to. -/
theorem toDouble_rounds (d : Decimal) : Double.Rounds d.negative d.magnitude d.toDouble := by
  rw [toDouble_eq]
  exact Double.ofMagnitude_rounds d.negative d.magnitude_nonneg

end Decimal

end LoadPlan.Number
