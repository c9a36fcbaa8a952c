import DefToC.Proofs.Number.Rounding
import DefToC.Literal
import Mathlib.Data.List.TakeWhile

/-!
# Written numbers are read back

A number of a source is written with digits, perhaps a point and digits behind it, and perhaps an
exponent (`Decimal.IsWritten`). One that has a point or an exponent is read as the nearest double to
its value, which has to be finite (`Literal.ofNumber?_eq_some_iff`).

The text of a whole number and the text of a finite double are read as that number.
-/

namespace DefToC

/-! ### Digits -/

theorem digitsValue_eq (cs : List Char) : digitsValue cs = Nat.ofDigitChars 10 cs 0 :=
  Nat.ofDigitChars_eq_foldl.symm

theorem digitsValue_toDigits (n : Nat) : digitsValue (Nat.toDigits 10 n) = n := by
  rw [digitsValue_eq, Nat.ofDigitChars_ten_toDigits]

theorem digitsValue_append (cs ds : List Char) :
    digitsValue (cs ++ ds) = tenTo ds.length * digitsValue cs + digitsValue ds := by
  rw [digitsValue_eq, digitsValue_eq, digitsValue_eq, Nat.ofDigitChars_append,
    Nat.ofDigitChars_eq_ofDigitChars_zero]
  rfl

theorem digitsValue_zeros (n : Nat) : digitsValue (List.replicate n '0') = 0 := by
  rw [digitsValue_eq, Nat.ofDigitChars_replicate_zero, Nat.mul_zero]

theorem isDigit_of_mem_toDigits {n : Nat} {c : Char} (h : c ∈ Nat.toDigits 10 n) : c.isDigit :=
  Nat.isDigit_of_mem_toDigits (by decide) (by decide) h

/-- A row that begins with a digit has no sign. -/
theorem takeSign_of_isDigit {c : Char} {cs : List Char} (h : c.isDigit) :
    takeSign (c :: cs) = (false, c :: cs) := by
  unfold takeSign
  split
  · rename_i heq
    cases heq
    exact absurd h (by decide)
  · rename_i heq
    cases heq
    exact absurd h (by decide)
  · rfl

theorem takeSign_digits {cs : List Char} (hne : cs ≠ []) (h : ∀ c ∈ cs, c.isDigit)
    (ds : List Char) : takeSign (cs ++ ds) = (false, cs ++ ds) := by
  obtain ⟨c, cs, rfl⟩ := List.exists_cons_of_ne_nil hne
  exact takeSign_of_isDigit (h c List.mem_cons_self)

/-! ### Integers -/

theorem readInteger?_digits {cs : List Char} (hne : cs ≠ []) (h : ∀ c ∈ cs, c.isDigit) :
    readInteger? cs = some (digitsValue cs : Int) := by
  have hsign := takeSign_digits hne h []
  rw [List.append_nil] at hsign
  simp only [readInteger?, hsign, signed]
  rw [if_pos ⟨hne, List.all_eq_true.2 h⟩]
  rfl

theorem toList_toString_natCast (n : Nat) : (toString (n : Int)).toList = Nat.toDigits 10 n := by
  show (toString n).toList = _
  rw [Nat.toString_eq_ofList_toDigits, String.toList_ofList]

theorem toList_toString_neg (n : Nat) :
    (toString (-((n + 1 : Nat) : Int))).toList = '-' :: Nat.toDigits 10 (n + 1) := by
  show ("-" ++ toString (n + 1)).toList = _
  simp only [String.toList_append, Nat.toString_eq_ofList_toDigits, String.toList_ofList]
  rfl

/-- The text of an integer is read as that integer. -/
theorem readInteger?_toString (n : Int) : readInteger? (toString n).toList = some n := by
  have hdigits (m : Nat) : ∀ c ∈ Nat.toDigits 10 m, c.isDigit :=
    fun c hc => isDigit_of_mem_toDigits hc
  obtain ⟨m, rfl | rfl⟩ := n.eq_nat_or_neg
  · rw [toList_toString_natCast, readInteger?_digits Nat.toDigits_ne_nil (hdigits m),
      digitsValue_toDigits]
  · obtain _ | m := m
    · decide
    · rw [toList_toString_neg]
      simp only [readInteger?, takeSign, signed]
      rw [if_pos ⟨Nat.toDigits_ne_nil, List.all_eq_true.2 (hdigits _)⟩, digitsValue_toDigits]
      rfl

/-! ### Doubles -/

namespace Decimal

theorem isDigit_of_mem_figures {d : Decimal} {c : Char} (h : c ∈ d.figures) : c.isDigit :=
  isDigit_of_mem_toDigits h

theorem figures_ne_nil (d : Decimal) : d.figures ≠ [] := Nat.toDigits_ne_nil

theorem digitsValue_figures (d : Decimal) : digitsValue d.figures = d.digits :=
  digitsValue_toDigits _

/-- Nothing, or an exponent as the text of a double has it. -/
inductive IsExponent : List Char → Int → Prop where
  | none : IsExponent [] 0
  | some (e : Int) : IsExponent ('e' :: (toString e).toList) e

/-- Nothing, or an exponent as a source can have it: the letter, perhaps a sign, and digits. -/
inductive IsWrittenExponent : List Char → Int → Prop where
  | none : IsWrittenExponent [] 0
  | some {letter : Char} {sign digits : List Char} : letter = 'e' ∨ letter = 'E' →
      sign = [] ∨ sign = ['+'] ∨ sign = ['-'] → digits ≠ [] → (∀ c ∈ digits, c.isDigit) →
      IsWrittenExponent (letter :: (sign ++ digits))
        (if sign = ['-'] then -(Nat.ofDigitChars 10 digits 0) else Nat.ofDigitChars 10 digits 0)

/-- How a decimal number is written in a source: digits, perhaps a point and digits behind it, and
perhaps an exponent. -/
inductive IsWritten : List Char → Decimal → Prop where
  | whole {whole cs : List Char} {e : Int} : whole ≠ [] → (∀ c ∈ whole, c.isDigit) →
      IsWrittenExponent cs e → IsWritten (whole ++ cs) ⟨Nat.ofDigitChars 10 whole 0, e⟩
  | point {whole fraction cs : List Char} {e : Int} : whole ≠ [] → (∀ c ∈ whole, c.isDigit) →
      (∀ c ∈ fraction, c.isDigit) → IsWrittenExponent cs e →
      IsWritten (whole ++ '.' :: (fraction ++ cs))
        ⟨Nat.ofDigitChars 10 (whole ++ fraction) 0, e - fraction.length⟩

variable {whole fraction cs : List Char} {e : Int} {d : Decimal}

theorem IsExponent.readExponent? (h : IsExponent cs e) : readExponent? cs = Option.some e := by
  cases h with
  | none => rfl
  | some e => exact readInteger?_toString e

theorem IsWrittenExponent.readExponent? (h : IsWrittenExponent cs e) :
    readExponent? cs = Option.some e := by
  cases h with
  | none => rfl
  | some hletter hsign hne hdigits =>
    rw [Decimal.readExponent?, if_pos hletter]
    obtain rfl | rfl | rfl := hsign
    · exact readInteger?_digits hne hdigits
    · exact if_pos ⟨hne, List.all_eq_true.2 hdigits⟩
    · exact if_pos ⟨hne, List.all_eq_true.2 hdigits⟩

/-- An exponent begins neither with a digit nor with a point. -/
theorem parts_of_readExponent? (h : readExponent? cs = Option.some e) :
    cs.takeWhile Char.isDigit = [] ∧ cs.dropWhile Char.isDigit = cs ∧
      takeFraction cs = ([], cs) := by
  cases cs with
  | nil => exact ⟨rfl, rfl, rfl⟩
  | cons c cs =>
    rw [readExponent?, Option.ite_none_right_eq_some] at h
    obtain ⟨rfl | rfl, -⟩ := h <;> exact ⟨rfl, rfl, rfl⟩

/-- Digits, a point, digits and an exponent. -/
theorem read?_point (hne : whole ≠ []) (hw : ∀ c ∈ whole, c.isDigit)
    (hf : ∀ c ∈ fraction, c.isDigit) (he : readExponent? cs = some e) :
    read? (whole ++ '.' :: (fraction ++ cs)) =
      some (false, ⟨digitsValue (whole ++ fraction), e - fraction.length⟩) := by
  obtain ⟨htail, hrest, -⟩ := parts_of_readExponent? he
  have htake : ('.' :: (fraction ++ cs)).takeWhile Char.isDigit = [] := rfl
  have hdrop : ('.' :: (fraction ++ cs)).dropWhile Char.isDigit = '.' :: (fraction ++ cs) := rfl
  simp only [read?, takeSign_digits hne hw, List.takeWhile_append_of_pos hw,
    List.dropWhile_append_of_pos hw, htake, hdrop, takeFraction, List.takeWhile_append_of_pos hf,
    List.dropWhile_append_of_pos hf, htail, hrest, he, List.append_nil, hne, false_and, if_false]
  rfl

/-- Digits and an exponent. -/
theorem read?_whole (hne : whole ≠ []) (hw : ∀ c ∈ whole, c.isDigit)
    (he : readExponent? cs = some e) :
    read? (whole ++ cs) = some (false, ⟨digitsValue whole, e⟩) := by
  obtain ⟨htail, hrest, hfraction⟩ := parts_of_readExponent? he
  simp only [read?, takeSign_digits hne hw, List.takeWhile_append_of_pos hw,
    List.dropWhile_append_of_pos hw, hfraction, htail, hrest, he, List.append_nil, hne, false_and,
    if_false]
  simp

/-- A written number is read as the number that it stands for. -/
theorem IsWritten.read? (h : IsWritten cs d) : read? cs = some (false, d) := by
  cases h with
  | whole hne hw he => rw [read?_whole hne hw he.readExponent?, digitsValue_eq]
  | point hne hw hf he => rw [read?_point hne hw hf he.readExponent?, digitsValue_eq]

/-- A written number begins with a digit. -/
theorem IsWritten.isDigit (h : IsWritten cs d) : ∃ c cs', cs = c :: cs' ∧ c.isDigit = true := by
  cases h with
  | whole hne hw _ | point hne hw _ _ =>
    obtain ⟨c, whole, rfl⟩ := List.exists_cons_of_ne_nil hne
    exact ⟨c, _, rfl, hw c List.mem_cons_self⟩

/-- A written number is made of digits, or it has a point or an exponent. -/
theorem IsWritten.digits_or_mark (h : IsWritten cs d) :
    (∀ c ∈ cs, c.isDigit) ∨ ∃ c ∈ cs, c = '.' ∨ c = 'e' ∨ c = 'E' := by
  cases h with
  | point => exact .inr ⟨'.', by simp, .inl rfl⟩
  | whole _ hw he =>
    cases he with
    | none => exact .inl (by simpa using hw)
    | some hletter => exact .inr ⟨_, by simp, .inr hletter⟩

end Decimal

namespace Double

open Decimal

variable {d : Decimal}

/-- A whole number is written with zeros up to the point, and one behind it. -/
theorem read?_layout_whole (h : 0 ≤ d.exponent) :
    ∃ d', Decimal.read? (d.figures ++ List.replicate d.exponent.toNat '0' ++ ['.', '0']) =
      some (false, d') ∧ ofDecimal d' = ofDecimal d := by
  have hw : ∀ c ∈ d.figures ++ List.replicate d.exponent.toNat '0', c.isDigit := by
    intro c hc
    rw [List.mem_append, List.mem_replicate] at hc
    obtain hc | ⟨-, rfl⟩ := hc
    · exact isDigit_of_mem_figures hc
    · rfl
  have hzero : ∀ c ∈ ['0'], c.isDigit := List.forall_mem_singleton.2 rfl
  have hread := read?_point (by simp [figures_ne_nil]) hw hzero IsExponent.none.readExponent?
  refine ⟨_, hread, ?_⟩
  have hvalue : digitsValue (d.figures ++ List.replicate d.exponent.toNat '0' ++ ['0']) =
      d.digits * tenTo (d.exponent.toNat + 1) := by
    rw [List.append_assoc, ← List.replicate_succ', digitsValue_append, digitsValue_zeros,
      List.length_replicate, digitsValue_figures, Nat.add_zero, Nat.mul_comm]
  have hexp : (0 - ((['0'] : List Char).length : Int)) + ((d.exponent.toNat + 1 : Nat) : Int) =
      d.exponent := by
    simp only [List.length_singleton]
    omega
  rw [hvalue, ofDecimal_shift, hexp]

/-- A number below one is written with zeros in front, so that a digit stands before the
point. -/
theorem read?_layout_point (h : d.exponent < 0) :
    let padded := d.figures.leftpad ((-d.exponent).toNat + 1) '0'
    let whole := padded.length - (-d.exponent).toNat
    Decimal.read? (padded.take whole ++ ['.'] ++ padded.drop whole) = some (false, d) := by
  intro padded whole
  have hdigits : ∀ c ∈ padded, c.isDigit := by
    intro c hc
    simp only [padded, List.leftpad, List.mem_append, List.mem_replicate] at hc
    obtain ⟨-, rfl⟩ | hc := hc
    · rfl
    · exact isDigit_of_mem_figures hc
  have hlength : (-d.exponent).toNat + 1 ≤ padded.length := by
    simp only [padded, List.length_leftpad]
    omega
  have hne : padded.take whole ≠ [] := by
    rw [Ne, List.take_eq_nil_iff]
    rintro (hw | hp)
    · omega
    · rw [hp] at hlength
      cases hlength
  have hf : ∀ c ∈ padded.drop whole, c.isDigit :=
    fun c hc => hdigits c (List.mem_of_mem_drop hc)
  have hread := read?_point hne (fun c hc => hdigits c (List.mem_of_mem_take hc)) hf
    IsExponent.none.readExponent?
  rw [List.append_nil] at hread
  rw [List.append_assoc]
  refine hread.trans ?_
  rw [List.take_append_drop, List.length_drop]
  have hvalue : digitsValue padded = d.digits := by
    rw [show padded = List.replicate _ '0' ++ d.figures from rfl, digitsValue_append,
      digitsValue_zeros, digitsValue_figures, Nat.mul_zero, Nat.zero_add]
  have hexp : (0 : Int) - ((padded.length - whole : Nat) : Int) = d.exponent := by omega
  rw [hvalue, hexp]

/-- A very large or small number is written with one digit in front of the point and an
exponent. -/
theorem read?_layout_exponent :
    Decimal.read? (d.figures.take 1 ++
      (if d.figures.length ≤ 1 then [] else '.' :: d.figures.drop 1) ++ ['e'] ++
      (toString d.magnitude).toList) = some (false, d) := by
  have hvalue := digitsValue_figures d
  have hdigits : ∀ c ∈ d.figures, c.isDigit := fun c hc => isDigit_of_mem_figures hc
  have hmagnitude : d.magnitude = d.exponent + d.figures.length - 1 := rfl
  obtain ⟨c, cs, hfigures⟩ := List.exists_cons_of_ne_nil (figures_ne_nil d)
  rw [hfigures] at hvalue hdigits hmagnitude ⊢
  have hc : ∀ x ∈ [c], x.isDigit := by
    simpa using hdigits c List.mem_cons_self
  by_cases hcs : cs = []
  · subst hcs
    have hread := read?_whole (List.cons_ne_nil c []) hc (IsExponent.some d.magnitude).readExponent?
    have hexp : d.magnitude = d.exponent := by
      rw [hmagnitude, List.length_singleton]
      omega
    rw [hvalue] at hread
    rw [if_pos (show [c].length ≤ 1 from Nat.le_refl 1), List.append_nil, List.append_assoc]
    refine hread.trans ?_
    rw [hexp]
  · have hcs' : ∀ x ∈ cs, x.isDigit := fun x hx => hdigits x (List.mem_cons_of_mem c hx)
    have hread := read?_point (List.cons_ne_nil c []) hc hcs'
      (IsExponent.some d.magnitude).readExponent?
    have hlength : ¬(c :: cs).length ≤ 1 := by
      simpa [List.length_eq_zero_iff] using hcs
    have hexp : d.magnitude - (cs.length : Int) = d.exponent := by
      rw [hmagnitude, List.length_cons]
      omega
    rw [show digitsValue ([c] ++ cs) = d.digits from hvalue, hexp] at hread
    rw [if_neg hlength, List.append_assoc, List.append_assoc]
    exact hread

/-- The layout of a number is read as a number of the same value. -/
theorem exists_read?_layout (d : Decimal) :
    ∃ d', Decimal.read? (layout d) = some (false, d') ∧ ofDecimal d' = ofDecimal d := by
  by_cases hm : -4 ≤ d.magnitude ∧ d.magnitude < 16
  · by_cases he : 0 ≤ d.exponent
    · simp only [layout, hm, he, if_true]
      exact read?_layout_whole he
    · simp only [layout, hm, he, if_false]
      exact ⟨d, read?_layout_point (by omega), rfl⟩
  · simp only [layout, hm, if_false]
    exact ⟨d, read?_layout_exponent, rfl⟩

/-- A number that is tried for a pattern is taken only if it is read as the pattern. -/
theorem ofDecimal_of_approximate? {p n : Nat} {d' : Decimal}
    (h : approximate? p d n = some d') : ofDecimal d' = p := by
  simp only [approximate?] at h
  split at h
  · rename_i hbelow
    split at h
    · rename_i habove
      cases h
      exact habove.1
    · cases h
      exact hbelow
  · split at h
    · rename_i habove
      cases h
      exact habove
    · cases h

/-- The zeros that are counted at the end of the digits are a power of ten that divides them. -/
theorem tenTo_dvd_digits (d : Decimal) :
    tenTo (d.figures.reverse.takeWhile (· == '0')).length ∣ d.digits := by
  have hsplit := List.takeWhile_append_dropWhile (p := (· == '0')) (l := d.figures.reverse)
  have hzeros : d.figures.reverse.takeWhile (· == '0') =
      List.replicate (d.figures.reverse.takeWhile (· == '0')).length '0' :=
    List.eq_replicate_of_mem fun c hc => eq_of_beq (List.mem_takeWhile_imp (p := (· == '0')) hc)
  rw [hzeros, ← List.reverse_inj, List.reverse_reverse, List.reverse_append,
    List.reverse_replicate] at hsplit
  have hvalue := digitsValue_figures d
  rw [← hsplit, digitsValue_append, digitsValue_zeros, Nat.add_zero,
    List.length_replicate] at hvalue
  exact ⟨_, hvalue.symm⟩

theorem ofDecimal_normalize (d : Decimal) : ofDecimal d.normalize = ofDecimal d := by
  rw [Decimal.normalize, ← ofDecimal_shift, Nat.div_mul_cancel (tenTo_dvd_digits d)]

/-- The digits that a finite pattern is written with are read as the pattern. -/
theorem ofDecimal_shortest {p : Nat} (hp : p < infinity) : ofDecimal (shortest p) = p := by
  rw [shortest, ofDecimal_normalize]
  cases h : (List.range (exact p).figures.length).findSome? fun n =>
      approximate? p (exact p) ((exact p).figures.length - 1 - n) with
  | none => exact ofDecimal_exact hp
  | some d =>
    obtain ⟨n, -, hn⟩ := List.exists_of_findSome?_eq_some h
    exact ofDecimal_of_approximate? hn

theorem toList_text {p : Nat} (hp : p < infinity) :
    (text ⟨false, p⟩).toList = if p = 0 then ['0', '.', '0'] else layout (shortest p) := by
  have hle : ¬infinity < p := Nat.not_lt.2 (Nat.le_of_lt hp)
  have hne : p ≠ infinity := Nat.ne_of_lt hp
  unfold text
  rw [if_neg hle]
  show (String.ofList ([] ++ if p = infinity then _ else if p = 0 then _ else _)).toList = _
  rw [if_neg hne, List.nil_append, String.toList_ofList]

/-- **The text of a finite double is read as that double.** -/
theorem read?_text {x : Double} (hx : x.isFinite) (hpos : x.negative = false) :
    read? x.text.toList = some x := by
  obtain ⟨negative, p⟩ := x
  obtain rfl : negative = false := hpos
  have hp : p < infinity := of_decide_eq_true hx
  rw [read?, toList_text hp]
  by_cases hzero : p = 0
  · have hdigits : ∀ c ∈ ['0'], c.isDigit := List.forall_mem_singleton.2 rfl
    have hread := read?_point (List.cons_ne_nil _ _) hdigits hdigits IsExponent.none.readExponent?
    rw [if_pos hzero, show ['0', '.', '0'] = ['0'] ++ '.' :: (['0'] ++ []) from rfl, hread]
    simp only [Option.map_some, Option.some.injEq, mk.injEq, true_and, hzero]
    exact if_pos rfl
  · obtain ⟨d, hread, hd⟩ := exists_read?_layout (shortest p)
    rw [ofDecimal_shortest hp] at hd
    rw [if_neg hzero, hread]
    simp only [Option.map_some, hd]

theorem point_or_exponent_mem_layout (d : Decimal) : '.' ∈ layout d ∨ 'e' ∈ layout d := by
  by_cases hm : -4 ≤ d.magnitude ∧ d.magnitude < 16
  · by_cases he : 0 ≤ d.exponent
    · simp [layout, hm, he]
    · simp [layout, hm, he]
  · simp [layout, hm]

/-- The text of a finite double has a point or an exponent. -/
theorem point_or_exponent_mem_text {x : Double} (hx : x.isFinite) (hpos : x.negative = false) :
    '.' ∈ x.text.toList ∨ 'e' ∈ x.text.toList := by
  obtain ⟨negative, p⟩ := x
  obtain rfl : negative = false := hpos
  have hp : p < infinity := of_decide_eq_true hx
  rw [toList_text hp]
  split
  · exact .inl (by decide)
  · exact point_or_exponent_mem_layout _

end Double

namespace Literal

/-- The literals that are written as one token of the source language. -/
def Printable : Literal → Prop
  | bool _ => True
  | int n => 0 ≤ n ∧ n ≤ 2147483647
  | float x => x.isFinite ∧ x.negative = false

instance : DecidablePred Printable := by
  intro v
  cases v <;> unfold Printable <;> infer_instance

theorem ofNumber?_int {n : Int} (h : Printable (.int n)) :
    ofNumber? (toString n) = some (.int n) := by
  obtain ⟨h₀, h₁⟩ := h
  have hdigits : ((toString n).toList.any fun c => c == '.' || c == 'e' || c == 'E') = false := by
    obtain ⟨m, rfl⟩ := Int.eq_ofNat_of_zero_le h₀
    rw [toList_toString_natCast, List.any_eq_false]
    intro c hc hmark
    have hdigit := isDigit_of_mem_toDigits hc
    simp only [Bool.or_eq_true, beq_iff_eq] at hmark
    obtain (rfl | rfl) | rfl := hmark <;> exact absurd hdigit (by decide)
  have hrange : (-2147483648 ≤ n && n ≤ 2147483647) = true := by
    simp only [Bool.and_eq_true, decide_eq_true_eq]
    omega
  simp only [ofNumber?, hdigits, readInteger?_toString, Option.filter, hrange]
  simp

theorem ofNumber?_float {x : Double} (h : Printable (.float x)) :
    ofNumber? x.text = some (.float x) := by
  obtain ⟨hfinite, hpos⟩ := h
  have hmark : (x.text.toList.any fun c => c == '.' || c == 'e' || c == 'E') = true := by
    rw [List.any_eq_true]
    obtain h | h := Double.point_or_exponent_mem_text hfinite hpos
    · exact ⟨'.', h, rfl⟩
    · exact ⟨'e', h, rfl⟩
  simp only [ofNumber?, hmark, Double.read?_text hfinite hpos, Option.filter, hfinite]
  simp

/-- **A number with a point or an exponent has the nearest double to its value, if that is
finite.** -/
theorem ofNumber?_eq_some_iff {text : String} {d : Decimal} {l : Literal}
    (h : Decimal.IsWritten text.toList d) (hmark : ¬∀ c ∈ text.toList, c.isDigit) :
    ofNumber? text = some l ↔
      ∃ p < Double.infinity, Double.IsNearest d.value p ∧ l = .float ⟨false, p⟩ := by
  have hany : (text.toList.any fun c => c == '.' || c == 'e' || c == 'E') = true := by
    obtain ⟨c, hc, hmark⟩ := h.digits_or_mark.resolve_left hmark
    exact List.any_eq_true.2 ⟨c, hc, by simpa [or_assoc] using hmark⟩
  simp only [ofNumber?, hany, if_true, Double.read?, h.read?, Option.map_some, Option.filter_some,
    Double.isFinite]
  by_cases hfinite : Double.ofDecimal d < Double.infinity
  · have hnearest := (Double.ofDecimal_eq_iff hfinite).1 rfl
    simp only [hfinite, decide_true, if_true, Option.map_some, Option.some.injEq]
    constructor
    · rintro rfl
      exact ⟨_, hfinite, hnearest, rfl⟩
    · rintro ⟨p, -, hp, rfl⟩
      rw [hp.eq hnearest]
  · simp only [hfinite, decide_false, Bool.false_eq_true, if_false, Option.map_none, reduceCtorEq,
      false_iff]
    rintro ⟨p, hp, hnearest, -⟩
    rw [(Double.ofDecimal_eq_iff hp).2 hnearest] at hfinite
    exact hfinite hp

end Literal

end DefToC
