import DefToC.Number.Double
import Mathlib.Algebra.Order.Field.Rat
import Mathlib.Order.Monotone.Basic
import Mathlib.Tactic.Linarith
import Mathlib.Tactic.FieldSimp
import Mathlib.Tactic.Ring

/-!
# Rounding to doubles

The double that a decimal number is read as is the nearest one to its value, and of two that are
equally near the even one (`Double.ofDecimal_eq_iff`). So it depends on the value alone, not on how
many zeros stand at the end of the digits, and the exact value of a double is read as that double.
-/

namespace DefToC

/-- The value of a decimal number. -/
def Decimal.value (d : Decimal) : ℚ := d.digits * 10 ^ d.exponent

namespace Double

/-! ### Patterns and their values -/

theorem twoTo_eq (n : Nat) : twoTo n = 2 ^ n := rfl

theorem twoTo_pos (n : Nat) : 0 < twoTo n := Nat.pow_pos (by decide)

theorem twoTo_add (m n : Nat) : twoTo (m + n) = twoTo m * twoTo n := Nat.pow_add 2 m n

theorem twoTo_le_twoTo {m n : Nat} (h : m ≤ n) : twoTo m ≤ twoTo n :=
  Nat.pow_le_pow_right (by decide) h

theorem tenTo_pos (n : Nat) : 0 < tenTo n := Nat.pow_pos (by decide)

theorem tenTo_add (m n : Nat) : tenTo (m + n) = tenTo m * tenTo n := Nat.pow_add 10 m n

/-- A pattern is a subnormal one, or it has an exponent and a fraction. -/
theorem units_subnormal {p : Nat} (h : p < twoTo 52) : units p = p := if_pos h

theorem units_normal {k m : Nat} (h : m < twoTo 52) :
    units ((k + 1) * twoTo 52 + m) = (twoTo 52 + m) * twoTo k := by
  have hpos := twoTo_pos 52
  have hmod : ((k + 1) * twoTo 52 + m) % twoTo 52 = m := by
    rw [Nat.mul_comm, Nat.mul_add_mod, Nat.mod_eq_of_lt h]
  have hdiv : ((k + 1) * twoTo 52 + m) / twoTo 52 = k + 1 := by
    rw [Nat.mul_comm, Nat.mul_add_div hpos, Nat.div_eq_of_lt h, Nat.add_zero]
  have hge : ¬(k + 1) * twoTo 52 + m < twoTo 52 := by
    rw [Nat.add_mul]
    omega
  rw [units, if_neg hge, hmod, hdiv, Nat.add_sub_cancel]

theorem exists_normal {p : Nat} (h : twoTo 52 ≤ p) :
    ∃ k m, m < twoTo 52 ∧ p = (k + 1) * twoTo 52 + m := by
  refine ⟨p / twoTo 52 - 1, p % twoTo 52, Nat.mod_lt _ (twoTo_pos 52), ?_⟩
  have hdiv : 1 ≤ p / twoTo 52 := (Nat.one_le_div_iff (twoTo_pos 52)).2 h
  rw [Nat.sub_add_cancel hdiv, Nat.mul_comm, Nat.div_add_mod]

/-- The next pattern is one step of the same size up, also where it has the next exponent. -/
theorem units_normal_succ {k m : Nat} (h : m < twoTo 52) :
    units ((k + 1) * twoTo 52 + m + 1) = (twoTo 52 + m + 1) * twoTo k := by
  by_cases hm : m + 1 < twoTo 52
  · rw [Nat.add_assoc, units_normal hm, Nat.add_assoc]
  · have heq : (k + 1) * twoTo 52 + m + 1 = (k + 1 + 1) * twoTo 52 + 0 := by
      rw [Nat.add_mul (k + 1) 1]
      omega
    have htwo : twoTo (k + 1) = 2 * twoTo k := by
      rw [twoTo_eq, twoTo_eq, Nat.pow_succ, Nat.mul_comm]
    rw [heq, units_normal (twoTo_pos 52), htwo, ← Nat.mul_assoc]
    congr 1
    omega

theorem units_lt_succ (p : Nat) : units p < units (p + 1) := by
  by_cases hp : p < twoTo 52
  · rw [units_subnormal hp]
    by_cases hp' : p + 1 < twoTo 52
    · rw [units_subnormal hp']
      exact Nat.lt_succ_self p
    · have heq : p + 1 = (0 + 1) * twoTo 52 + 0 := by omega
      rw [heq, units_normal (twoTo_pos 52)]
      rw [twoTo_eq 0, Nat.pow_zero, Nat.mul_one]
      omega
  · obtain ⟨k, m, hm, rfl⟩ := exists_normal (Nat.le_of_not_lt hp)
    rw [units_normal hm, units_normal_succ hm]
    exact Nat.mul_lt_mul_of_pos_right (Nat.lt_succ_self _) (twoTo_pos k)

/-- Larger patterns have larger values. -/
theorem units_strictMono : StrictMono units := strictMono_nat_of_lt_succ units_lt_succ

/-- The pattern below a number has at most its value, and the next pattern has more. -/
theorem patternBelow_spec (n : Nat) :
    units (patternBelow n) ≤ n ∧ n < units (patternBelow n + 1) := by
  by_cases hn : n < twoTo 52
  · have hlog : n.log2 - 52 = 0 := by
      rw [Nat.sub_eq_zero_iff_le]
      by_cases hzero : n = 0
      · rw [hzero]
        decide
      · exact Nat.le_of_lt ((Nat.log2_lt hzero).2 hn)
    have hbelow : patternBelow n = n := by
      rw [patternBelow, hlog]
      simp
    have hlt := units_lt_succ n
    rw [hbelow]
    rw [units_subnormal hn] at hlt ⊢
    exact ⟨Nat.le_refl n, hlt⟩
  · -- the digits of `n` in front of the shift are those of a normal pattern
    have hzero : n ≠ 0 := Nat.ne_of_gt (Nat.lt_of_lt_of_le (twoTo_pos 52) (Nat.le_of_not_lt hn))
    have hlog : 52 ≤ n.log2 := (Nat.le_log2 hzero).2 (Nat.le_of_not_lt hn)
    obtain ⟨k, hk⟩ := Nat.exists_eq_add_of_le hlog
    have hlow : twoTo 52 ≤ n / twoTo k := by
      rw [Nat.le_div_iff_mul_le (twoTo_pos k), ← twoTo_add, ← hk]
      exact Nat.log2_self_le hzero
    have hhigh : n / twoTo k < twoTo 53 := by
      rw [Nat.div_lt_iff_lt_mul (twoTo_pos k), ← twoTo_add, Nat.add_right_comm 52 1 k, ← hk]
      exact Nat.lt_log2_self
    obtain ⟨m, hm⟩ := Nat.exists_eq_add_of_le hlow
    have hm' : m < twoTo 52 := by
      have htwo : twoTo 53 = 2 * twoTo 52 := rfl
      omega
    have hbelow : patternBelow n = (k + 1) * twoTo 52 + m := by
      rw [patternBelow, hk, Nat.add_sub_cancel_left]
      show k * twoTo 52 + n / twoTo k = _
      rw [hm, Nat.add_mul]
      omega
    rw [hbelow, units_normal hm', units_normal_succ hm', ← hm]
    exact ⟨Nat.div_mul_le_self n _, Nat.lt_mul_of_div_lt (Nat.lt_succ_self _) (twoTo_pos k)⟩

/-- No finite pattern is below a value this large. -/
theorem infinity_le_patternBelow {n k : Nat} (hk : 2098 ≤ k) (h : twoTo k ≤ n) :
    infinity ≤ patternBelow n := by
  have hvalue (j : Nat) : units ((j + 1) * twoTo 52 + 0) = twoTo (52 + j) := by
    rw [units_normal (twoTo_pos 52), Nat.add_zero, twoTo_add]
  have hlt : units infinity < units (patternBelow n + 1) :=
    calc units infinity = twoTo (52 + 2046) := hvalue 2046
      _ ≤ twoTo k := twoTo_le_twoTo hk
      _ ≤ n := h
      _ < units (patternBelow n + 1) := (patternBelow_spec n).2
  exact Nat.le_of_lt_succ (units_strictMono.lt_iff_lt.1 hlt)

/-! ### The nearest pattern -/

/-- How far the value of a pattern is from a number, in units of `2 ^ (-1074)`. -/
def distance (r : ℚ) (p : Nat) : ℚ := |(units p : ℚ) - r * twoTo 1074|

/-- No pattern is nearer to a number, and one that another is equally near as is even. Patterns from
`infinity` on stand for the values that doubles would have if their exponents were not bounded. -/
structure IsNearest (r : ℚ) (p : Nat) : Prop where
  le : ∀ q, distance r p ≤ distance r q
  even : ∀ q, q ≠ p → distance r q = distance r p → Even p

section

variable {r : ℚ} {n p q : Nat}

/-- Below a number, patterns are farther from it the smaller they are. -/
theorem distance_lt_of_lt (hn : (units n : ℚ) ≤ r * twoTo 1074) (hq : q < n) :
    distance r n < distance r q := by
  have hlt : (units q : ℚ) < units n := Nat.cast_lt.2 (units_strictMono hq)
  rw [distance, distance, abs_of_nonpos (by linarith), abs_of_nonpos (by linarith)]
  linarith

/-- Above a number, patterns are farther from it the larger they are. -/
theorem distance_lt_of_gt (hn : r * twoTo 1074 ≤ units n) (hq : n < q) :
    distance r n < distance r q := by
  have hlt : (units n : ℚ) < units q := Nat.cast_lt.2 (units_strictMono hq)
  rw [distance, distance, abs_of_nonneg (by linarith), abs_of_nonneg (by linarith)]
  linarith

/-- There is one nearest pattern. -/
theorem IsNearest.eq (hp : IsNearest r p) (hq : IsNearest r q) : p = q := by
  wlog hlt : p < q generalizing p q
  · obtain rfl | hgt := Nat.eq_or_lt_of_le (Nat.le_of_not_lt hlt)
    · rfl
    · exact (this hq hp hgt).symm
  -- both are even, so there is a pattern between them, and it is nearer
  have hdist : distance r p = distance r q := le_antisymm (hp.le q) (hq.le p)
  have hp' := hp.even q (Nat.ne_of_gt hlt) hdist.symm
  have hq' := hq.even p (Nat.ne_of_lt hlt) hdist
  have hsucc : p + 1 < q := by
    rcases hp' with ⟨i, rfl⟩
    rcases hq' with ⟨j, rfl⟩
    omega
  have hlow : (units p : ℚ) < units (p + 1) := Nat.cast_lt.2 (units_lt_succ p)
  have hhigh : (units (p + 1) : ℚ) < units q := Nat.cast_lt.2 (units_strictMono hsucc)
  have hmiddle : (units p : ℚ) - r * twoTo 1074 = -(units q - r * twoTo 1074) := by
    rcases abs_eq_abs.1 hdist with h | h
    · linarith
    · exact h
  have hnearer : distance r (p + 1) < distance r q := by
    rw [distance, distance, abs_of_nonneg (by linarith : 0 ≤ (units q : ℚ) - r * twoTo 1074),
      abs_lt]
    constructor <;> linarith
  exact absurd (hq.le (p + 1)) (not_le.2 hnearer)

/-- A pattern is nearest to its own value. -/
theorem isNearest_of_eq (h : r * twoTo 1074 = units p) : IsNearest r p := by
  have hdist : distance r p = 0 := by rw [distance, h, sub_self, abs_zero]
  constructor
  · intro q
    rw [hdist]
    exact abs_nonneg _
  · intro q hne hq
    rw [hdist, distance, h, abs_eq_zero, sub_eq_zero, Nat.cast_inj] at hq
    exact absurd (units_strictMono.injective hq) hne

/-- The nearest pattern is one of the two on both sides of a number. -/
theorem isNearest_of_between (hlow : (units n : ℚ) ≤ r * twoTo 1074)
    (hhigh : r * twoTo 1074 ≤ units (n + 1)) (hp : p = n ∨ p = n + 1)
    (hle : distance r p ≤ distance r n) (hle' : distance r p ≤ distance r (n + 1))
    (heven : distance r n = distance r (n + 1) → Even p) : IsNearest r p := by
  have hcases (q : Nat) : q = n ∨ q = n + 1 ∨ distance r p < distance r q := by
    rcases Nat.lt_trichotomy q n with hq | hq | hq
    · exact .inr (.inr (hle.trans_lt (distance_lt_of_lt hlow hq)))
    · exact .inl hq
    · obtain rfl | hq := Nat.eq_or_lt_of_le (Nat.succ_le_of_lt hq)
      · exact .inr (.inl rfl)
      · exact .inr (.inr (hle'.trans_lt (distance_lt_of_gt hhigh hq)))
  constructor
  · intro q
    obtain rfl | rfl | hq := hcases q
    · exact hle
    · exact hle'
    · exact hq.le
  · intro q hne hdist
    obtain rfl | rfl | hq := hcases q
    · obtain rfl : p = q + 1 := hp.resolve_left hne.symm
      exact heven hdist
    · obtain rfl : p = n := hp.resolve_right hne.symm
      exact heven hdist.symm
    · exact absurd hdist hq.ne'

/-- **The pattern that a number is rounded to is the nearest one, or the infinite one if the nearest
one is not finite.** -/
theorem exists_isNearest {a b : Nat} (hb : 0 < b) (hr : r * twoTo 1074 = a / b) :
    ∃ p, IsNearest r p ∧ nearest a b = min infinity p := by
  obtain ⟨hlow, hhigh⟩ := patternBelow_spec (a / b)
  unfold nearest
  generalize patternBelow (a / b) = n at hlow hhigh ⊢
  have hb' : (0 : ℚ) < b := Nat.cast_pos.2 hb
  have hlow' : (units n : ℚ) ≤ r * twoTo 1074 := by
    rw [hr, le_div_iff₀ hb']
    exact_mod_cast (Nat.le_div_iff_mul_le hb).1 hlow
  have hhigh' : r * twoTo 1074 < units (n + 1) := by
    rw [hr, div_lt_iff₀ hb']
    exact_mod_cast (Nat.div_lt_iff_lt_mul hb).1 hhigh
  have hn : distance r n = r * twoTo 1074 - units n := by
    rw [distance, abs_sub_comm, abs_of_nonneg (by linarith)]
  have hn' : distance r (n + 1) = units (n + 1) - r * twoTo 1074 := by
    rw [distance, abs_of_nonneg (by linarith)]
  have hdouble : (2 * a : ℚ) = 2 * (r * twoTo 1074) * b := by
    rw [hr]
    field_simp
  have hcompare :
      (2 * a < (units n + units (n + 1)) * b ↔ distance r n < distance r (n + 1)) ∧
        ((units n + units (n + 1)) * b < 2 * a ↔ distance r (n + 1) < distance r n) := by
    rw [hn, hn', ← Nat.cast_lt (α := ℚ), ← Nat.cast_lt (α := ℚ)]
    push_cast
    rw [hdouble, mul_lt_mul_iff_left₀ hb', mul_lt_mul_iff_left₀ hb']
    constructor <;> constructor <;> intro h <;> linarith
  simp only [hcompare]
  rcases lt_trichotomy (distance r n) (distance r (n + 1)) with h | h | h
  · refine ⟨n, isNearest_of_between hlow' hhigh'.le (.inl rfl) le_rfl h.le (absurd · h.ne), ?_⟩
    rw [if_pos h]
    split <;> omega
  · have hp : n + n % 2 = n ∨ n + n % 2 = n + 1 := by omega
    have hdist : distance r (n + n % 2) = distance r n := by
      rcases hp with hp | hp <;> rw [hp]
      exact h.symm
    refine ⟨n + n % 2, isNearest_of_between hlow' hhigh'.le hp hdist.le (hdist.trans h).le
      fun _ => Nat.even_iff.2 (by omega), ?_⟩
    rw [if_neg h.not_lt, if_neg h.not_gt]
    split <;> omega
  · refine ⟨n + 1, isNearest_of_between hlow' hhigh'.le (.inr rfl) h.le le_rfl (absurd · h.ne'), ?_⟩
    rw [if_neg h.not_gt, if_pos h]
    split <;> omega

end

theorem nearest_large {a b k : Nat} (hb : 0 < b) (hk : 2098 ≤ k) (h : twoTo k * b ≤ a) :
    nearest a b = infinity := by
  have hbelow := infinity_le_patternBelow hk ((Nat.le_div_iff_mul_le hb).2 h)
  simp only [nearest, hbelow, if_true]

theorem nearest_small {a b : Nat} (h : 2 * a < b) : nearest a b = 0 := by
  have hdiv : a / b = 0 := Nat.div_eq_of_lt (by omega)
  have hbelow : patternBelow 0 = 0 := by decide
  have hunits : units 0 + units (0 + 1) = 1 := by decide
  have hinf : ¬infinity ≤ 0 := by decide
  simp only [nearest, hdiv, hbelow, hinf, hunits, Nat.one_mul, h, if_true, if_false]

/-! ### Decimal numbers -/

/-- Powers of ten outgrow powers of two. -/
theorem twoTo_le_tenTo {j n : Nat} (h : j ≤ 3 * n) : twoTo j ≤ tenTo n :=
  calc twoTo j ≤ twoTo (3 * n) := twoTo_le_twoTo h
    _ = 8 ^ n := Nat.pow_mul 2 3 n
    _ ≤ tenTo n := Nat.pow_le_pow_left (by decide) n

theorem digits_lt_tenTo (d : Decimal) : d.digits < tenTo d.figures.length :=
  (Nat.length_toDigits_le_iff (by decide) Nat.length_toDigits_pos).1 Nat.le.refl

theorem cast_tenTo (n : Nat) : (tenTo n : ℚ) = 10 ^ (n : ℤ) := by
  rw [zpow_natCast]
  exact_mod_cast Nat.cast_pow 10 n

/-- How many units of `2 ^ (-j)` a decimal number is, as a fraction. -/
def numerator (j : Nat) (d : Decimal) : Nat := d.digits * tenTo d.exponent.toNat * twoTo j

/-- The denominator of that fraction. -/
def denominator (d : Decimal) : Nat := tenTo (-d.exponent).toNat

theorem denominator_pos (d : Decimal) : 0 < denominator d := tenTo_pos _

theorem nearest_of_exponent {j : Nat} {d : Decimal} (hj : 1074 ≤ j) (hd : d.digits ≠ 0)
    (h : 400 < d.exponent) : nearest (numerator j d) (denominator d) = infinity := by
  have hden : denominator d = 1 := by
    rw [denominator, Int.toNat_of_nonpos (by omega)]
  refine nearest_large (k := 1200 + j) (denominator_pos d) (by omega) ?_
  rw [hden, Nat.mul_one, twoTo_add, numerator]
  refine Nat.mul_le_mul_right _ ?_
  calc twoTo 1200 ≤ tenTo d.exponent.toNat := twoTo_le_tenTo (by omega)
    _ ≤ d.digits * tenTo d.exponent.toNat := Nat.le_mul_of_pos_left _ (Nat.pos_of_ne_zero hd)

theorem nearest_of_magnitude {j : Nat} {d : Decimal} (hj : j ≤ 1100) (h : d.magnitude < -400) :
    nearest (numerator j d) (denominator d) = 0 := by
  refine nearest_small ?_
  have hlen : d.exponent.toNat = 0 ∧ d.figures.length + 400 ≤ (-d.exponent).toNat := by
    simp only [Decimal.magnitude] at h
    omega
  rw [numerator, hlen.1, denominator]
  calc 2 * (d.digits * tenTo 0 * twoTo j) = d.digits * twoTo (j + 1) := by
        rw [twoTo_add, show tenTo 0 = 1 from rfl, show twoTo 1 = 2 from rfl]
        ring
    _ < tenTo d.figures.length * twoTo (j + 1) :=
        Nat.mul_lt_mul_of_pos_right (digits_lt_tenTo d) (twoTo_pos _)
    _ ≤ tenTo d.figures.length * tenTo 400 :=
        Nat.mul_le_mul_left _ (twoTo_le_tenTo (by omega))
    _ = tenTo (d.figures.length + 400) := (tenTo_add _ _).symm
    _ ≤ tenTo (-d.exponent).toNat := Nat.pow_le_pow_right (by decide) hlen.2

/-- The bounds on the exponent only save work. -/
theorem ofDecimal_eq (d : Decimal) : ofDecimal d = nearest (numerator 1074 d) (denominator d) := by
  unfold ofDecimal
  split
  · rename_i hd
    rw [numerator, hd, Nat.zero_mul, Nat.zero_mul]
    exact (nearest_small (denominator_pos d)).symm
  · rename_i hd
    split
    · exact (nearest_of_exponent (Nat.le_refl _) hd ‹_›).symm
    · split
      · exact (nearest_of_magnitude (by decide) ‹_›).symm
      · rfl

theorem value_mul_twoTo (d : Decimal) (j : Nat) :
    d.value * twoTo j = numerator j d / denominator d := by
  have hexp : (10 : ℚ) ^ d.exponent * denominator d = tenTo d.exponent.toNat := by
    rw [denominator, cast_tenTo, cast_tenTo, ← zpow_add₀ (by norm_num)]
    congr 1
    omega
  have hden : (denominator d : ℚ) ≠ 0 := Nat.cast_ne_zero.2 (Nat.ne_of_gt (denominator_pos d))
  rw [eq_div_iff hden, numerator, Decimal.value]
  push_cast
  rw [← hexp]
  ring

/-- **A finite double is read from a decimal number just if it is the nearest one.** -/
theorem ofDecimal_eq_iff {d : Decimal} {p : Nat} (hp : p < infinity) :
    ofDecimal d = p ↔ IsNearest d.value p := by
  obtain ⟨q, hq, hnearest⟩ := exists_isNearest (denominator_pos d) (value_mul_twoTo d 1074)
  rw [ofDecimal_eq, hnearest]
  constructor
  · intro h
    obtain rfl : q = p := by omega
    exact hq
  · intro h
    rw [hq.eq h, Nat.min_eq_right hp.le]

/-- What a number is read as depends on its value only. -/
theorem ofDecimal_congr {d d' : Decimal} (h : d.value = d'.value) : ofDecimal d = ofDecimal d' := by
  obtain ⟨p, hp, hd⟩ := exists_isNearest (denominator_pos d) (value_mul_twoTo d 1074)
  obtain ⟨q, hq, hd'⟩ := exists_isNearest (denominator_pos d') (value_mul_twoTo d' 1074)
  rw [ofDecimal_eq, ofDecimal_eq, hd, hd', hp.eq (h ▸ hq)]

/-- Zeros at the end of the digits do not change what a number is read as. -/
theorem ofDecimal_shift (n k : Nat) (e : Int) :
    ofDecimal ⟨n * tenTo k, e⟩ = ofDecimal ⟨n, e + k⟩ := by
  refine ofDecimal_congr ?_
  rw [Decimal.value, Decimal.value, zpow_add₀ (by norm_num), Nat.cast_mul, cast_tenTo]
  ring

/-- The value of a pattern in its decimal digits. -/
theorem value_exact {j u : Nat} {e : Int} (he : e = -(j : Int)) :
    (Decimal.mk (u * Nat.pow 5 j) e).value * twoTo j = u := by
  have hten : (10 : ℚ) ^ (j : ℤ) = twoTo j * Nat.pow 5 j := by
    rw [← cast_tenTo]
    exact_mod_cast Nat.mul_pow 2 5 j
  have hpos : (10 : ℚ) ^ (j : ℤ) ≠ 0 := zpow_ne_zero _ (by norm_num)
  rw [Decimal.value, he, zpow_neg, Nat.cast_mul]
  field_simp
  rw [hten]
  ring

/-- The exact value of a finite pattern is read as the pattern. -/
theorem ofDecimal_exact {p : Nat} (hp : p < infinity) : ofDecimal (exact p) = p := by
  have hvalue (j : Nat) (e : Int) (he : e = -(j : Int)) := value_exact (u := units p) he
  exact (ofDecimal_eq_iff hp).2 (isNearest_of_eq (hvalue 1074 (-1074) rfl))

end Double

end DefToC
