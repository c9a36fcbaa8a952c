import DefToC.Proofs.Number.ReadBack
import DefToC.Proofs.Typed.Steps

/-!
# Texts of literals

The text of a number without a sign begins with a digit, and the text of a negative number is a
minus sign and such a text. Every text is read as the literal that it stands for (`Literal.read?`),
so literals with the same text are the same literal: the point or the exponent tells a
floating-point number from an integer, and the first character tells both from a truth value.

The negation of a double, which is how a sign in a list is folded into it, has the opposite value
(`Double.value_neg`) and is written with a minus in front (`Double.toList_text_neg`).
-/

namespace DefToC

/-- A number without a sign. -/
def IsNumeral (cs : List Char) : Prop :=
  ∃ c cs', cs = c :: cs' ∧ c.isDigit = true ∧
    ∀ d ∈ cs', d.isDigit = true ∨ d ∈ ['.', 'e', '-']

variable {cs ds : List Char}

theorem IsNumeral.of_digits (hne : cs ≠ []) (h : ∀ c ∈ cs, c.isDigit = true)
    (hds : ∀ d ∈ ds, d.isDigit = true ∨ d ∈ ['.', 'e', '-']) : IsNumeral (cs ++ ds) := by
  obtain ⟨c, cs, rfl⟩ := List.exists_cons_of_ne_nil hne
  obtain ⟨hc, hcs⟩ := List.forall_mem_cons.1 h
  exact ⟨c, cs ++ ds, rfl, hc, List.forall_mem_append.2 ⟨fun d hd => .inl (hcs d hd), hds⟩⟩

/-! ### Integers -/

theorem isNumeral_toDigits (n : Nat) : IsNumeral (Nat.toDigits 10 n) := by
  simpa using IsNumeral.of_digits Nat.toDigits_ne_nil (fun c hc => isDigit_of_mem_toDigits hc)
    (List.forall_mem_nil _)

/-- The text of an integer is a number with or without a sign. -/
theorem toString_int_cases (n : Int) :
    (∃ m : Nat, (toString n).toList = Nat.toDigits 10 m ∧ n = m) ∨
      ∃ m : Nat, (toString n).toList = '-' :: Nat.toDigits 10 m ∧ n < 0 := by
  obtain ⟨m, rfl | rfl⟩ := n.eq_nat_or_neg
  · exact .inl ⟨m, toList_toString_natCast m, rfl⟩
  · cases m with
    | zero => exact .inl ⟨0, toList_toString_natCast 0, rfl⟩
    | succ m => exact .inr ⟨m + 1, toList_toString_neg m, by omega⟩

theorem mem_toString_int {n : Int} {c : Char} (h : c ∈ (toString n).toList) :
    c.isDigit = true ∨ c = '-' := by
  rcases toString_int_cases n with ⟨m, hm, -⟩ | ⟨m, hm, -⟩
  · exact .inl (isDigit_of_mem_toDigits (hm ▸ h))
  · rw [hm] at h
    rcases List.mem_cons.1 h with rfl | h
    · exact .inr rfl
    · exact .inl (isDigit_of_mem_toDigits h)

/-! ### Doubles -/

namespace Double

open Decimal

/-- Digits, perhaps with a point among them, and perhaps an exponent. -/
def IsPlain (cs : List Char) : Prop :=
  ∃ c front tail e, cs = c :: front ++ tail ∧ c.isDigit = true ∧
    (∀ d ∈ front, d.isDigit = true ∨ d = '.') ∧ IsExponent tail e

theorem IsPlain.of_digits {tail : List Char} {e : Int} (hne : cs ≠ [])
    (h : ∀ c ∈ cs, c.isDigit = true) (hds : ∀ d ∈ ds, d.isDigit = true ∨ d = '.')
    (htail : IsExponent tail e) : IsPlain (cs ++ ds ++ tail) := by
  obtain ⟨c, cs, rfl⟩ := List.exists_cons_of_ne_nil hne
  obtain ⟨hc, hcs⟩ := List.forall_mem_cons.1 h
  exact ⟨c, cs ++ ds, tail, e, rfl, hc,
    List.forall_mem_append.2 ⟨fun d hd => .inl (hcs d hd), hds⟩, htail⟩

theorem IsPlain.isNumeral (h : IsPlain cs) : IsNumeral cs := by
  obtain ⟨c, front, tail, e, rfl, hc, hfront, htail⟩ := h
  refine ⟨c, front ++ tail, rfl, hc, List.forall_mem_append.2 ⟨fun d hd => ?_, ?_⟩⟩
  · exact (hfront d hd).imp_right fun hd => by simp [hd]
  · cases htail with
    | none => exact List.forall_mem_nil _
    | some e =>
      refine List.forall_mem_cons.2 ⟨.inr (by simp), fun d hd => ?_⟩
      exact (mem_toString_int hd).imp_right fun hd => by simp [hd]

theorem isPlain_layout (d : Decimal) : IsPlain (layout d) := by
  have hdigits : ∀ c ∈ d.figures, c.isDigit = true := fun c hc => isDigit_of_mem_figures hc
  by_cases hm : -4 ≤ d.magnitude ∧ d.magnitude < 16
  · by_cases he : 0 ≤ d.exponent
    · simp only [layout, hm, he, if_true]
      have hzeros : ∀ c ∈ d.figures ++ List.replicate d.exponent.toNat '0', c.isDigit = true := by
        refine List.forall_mem_append.2 ⟨hdigits, fun c hc => ?_⟩
        rw [List.eq_of_mem_replicate hc]
        rfl
      rw [← List.append_nil (_ ++ ['.', '0'])]
      exact .of_digits (by simp [figures_ne_nil]) hzeros (by simp) .none
    · simp only [layout, hm, he, if_false]
      have hpadded : ∀ c ∈ d.figures.leftpad ((-d.exponent).toNat + 1) '0', c.isDigit = true := by
        intro c hc
        rcases List.mem_append.1 hc with hc | hc
        · rw [List.eq_of_mem_replicate hc]
          rfl
        · exact hdigits c hc
      rw [List.append_assoc, ← List.append_nil (_ ++ (_ ++ _))]
      refine .of_digits ?_ (fun c hc => hpadded c (List.mem_of_mem_take hc))
        (List.forall_mem_append.2 ⟨by simp, fun c hc => .inl (hpadded c (List.mem_of_mem_drop hc))⟩)
        .none
      -- one digit more than there are places is in front of the point
      refine List.ne_nil_of_length_pos ?_
      rw [List.length_take, List.length_leftpad]
      omega
  · simp only [layout, hm, if_false]
    rw [List.append_assoc _ ['e'], List.singleton_append]
    refine .of_digits (by simp [figures_ne_nil]) (fun c hc => hdigits c (List.mem_of_mem_take hc))
      (fun c hc => ?_) (.some d.magnitude)
    split at hc
    · cases hc
    · rcases List.mem_cons.1 hc with rfl | hc
      · exact .inr rfl
      · exact .inl (hdigits c (List.mem_of_mem_drop hc))

variable {x : Double}

/-- A finite double without a sign is written so. -/
theorem isPlain_text (hx : x.isFinite = true) (hpos : x.negative = false) :
    IsPlain x.text.toList := by
  obtain ⟨negative, p⟩ := x
  obtain rfl : negative = false := hpos
  rw [toList_text (of_decide_eq_true hx)]
  split
  · exact ⟨'0', ['.', '0'], [], 0, rfl, rfl,
      List.forall_mem_cons.2 ⟨.inr rfl, List.forall_mem_singleton.2 (.inl rfl)⟩, .none⟩
  · exact isPlain_layout _

theorem isNumeral_text (hx : x.isFinite = true) (hpos : x.negative = false) :
    IsNumeral x.text.toList :=
  (isPlain_text hx hpos).isNumeral

/-! ### The other sign -/

/-- The value of a finite double in units of `2 ^ (-1074)`. -/
def value (x : Double) : Int := if x.negative then -(units x.pattern : Int) else units x.pattern

/-- **The negation of a double has the opposite value.** -/
theorem value_neg (x : Double) : x.neg.value = -x.value := by
  obtain ⟨negative, p⟩ := x
  cases negative <;> simp [value, neg]

@[simp] theorem isFinite_neg (x : Double) : x.neg.isFinite = x.isFinite := rfl

/-- A double has no sign, or it is the negation of one that has none. -/
theorem exists_eq_neg (x : Double) :
    x.negative = false ∨ ∃ y : Double, y.negative = false ∧ x = y.neg := by
  obtain ⟨negative, p⟩ := x
  cases negative with
  | false => exact .inl rfl
  | true => exact .inr ⟨⟨false, p⟩, rfl, rfl⟩

/-- **The negation of a double is written with a minus in front.** -/
theorem toList_text_neg (hx : x.isFinite = true) (hpos : x.negative = false) :
    x.neg.text.toList = '-' :: x.text.toList := by
  have hle : ¬infinity < x.pattern := Nat.not_lt.2 (Nat.le_of_lt (of_decide_eq_true hx))
  simp [text, neg, hpos, hle]

/-- A minus in front of a number is read as the negation. -/
theorem read?_minus {c : Char} (hc : c.isDigit = true) :
    read? ('-' :: c :: cs) = (read? (c :: cs)).map neg := by
  have hsign : takeSign ('-' :: c :: cs) = (true, c :: cs) := rfl
  simp only [read?, Decimal.read?, takeSign_of_isDigit hc, hsign, Option.bind_eq_bind]
  cases Decimal.readExponent?
    (Decimal.takeFraction ((c :: cs).dropWhile Char.isDigit)).2 with
  | none => rfl
  | some e =>
    simp only [Option.bind_some]
    split <;> rfl

/-- The text of a finite double is read as that double, whatever its sign. -/
theorem read?_text_signed (hx : x.isFinite = true) : read? x.text.toList = some x := by
  obtain hpos | ⟨y, hpos, rfl⟩ := x.exists_eq_neg
  · exact read?_text hx hpos
  · rw [isFinite_neg] at hx
    obtain ⟨c, cs, hcs, hc, -⟩ := isNumeral_text hx hpos
    rw [toList_text_neg hx hpos, hcs, read?_minus hc, ← hcs, read?_text hx hpos, Option.map_some]

theorem point_or_exponent_mem_text_signed (hx : x.isFinite = true) :
    '.' ∈ x.text.toList ∨ 'e' ∈ x.text.toList := by
  obtain hpos | ⟨y, hpos, rfl⟩ := x.exists_eq_neg
  · exact point_or_exponent_mem_text hx hpos
  · rw [isFinite_neg] at hx
    rw [toList_text_neg hx hpos]
    exact (point_or_exponent_mem_text hx hpos).imp (List.mem_cons_of_mem _)
      (List.mem_cons_of_mem _)

end Double

/-! ### Literals -/

namespace Literal

/-- The literal that a text stands for. -/
def read? (cs : List Char) : Option Literal :=
  if cs = ['t', 'r', 'u', 'e'] then some (.bool true)
  else if cs = ['f', 'a', 'l', 's', 'e'] then some (.bool false)
  else if '.' ∈ cs ∨ 'e' ∈ cs then (Double.read? cs).map .float
  else (readInteger? cs).map .int

/-- The text of a number is a numeral, perhaps with a minus sign in front of it. -/
theorem number_text {l : Literal} (hl : l.Finite) (hb : ∀ b, l ≠ .bool b) :
    IsNumeral l.text.toList ∨ ∃ cs, l.text.toList = '-' :: cs ∧ IsNumeral cs := by
  cases l with
  | bool b => exact absurd rfl (hb b)
  | int n =>
    rcases toString_int_cases n with ⟨m, hm, -⟩ | ⟨m, hm, -⟩
    · exact .inl (by rw [text, hm]; exact isNumeral_toDigits m)
    · exact .inr ⟨_, hm, isNumeral_toDigits m⟩
  | float x =>
    have hx : x.isFinite = true := hl x rfl
    obtain hpos | ⟨y, hpos, rfl⟩ := x.exists_eq_neg
    · exact .inl (Double.isNumeral_text hx hpos)
    · rw [Double.isFinite_neg] at hx
      exact .inr ⟨_, Double.toList_text_neg hx hpos, Double.isNumeral_text hx hpos⟩

/-- Numbers are not written like truth values. -/
theorem number_text_ne_truth {l : Literal} (hl : l.Finite) (hb : ∀ b, l ≠ .bool b) :
    l.text.toList ≠ ['t', 'r', 'u', 'e'] ∧ l.text.toList ≠ ['f', 'a', 'l', 's', 'e'] := by
  rcases number_text hl hb with ⟨c, cs, hcs, hc, -⟩ | ⟨cs, hcs, -⟩
  · rw [hcs]
    constructor <;>
    · rintro ⟨⟩
      cases hc
  · rw [hcs]
    exact ⟨nofun, nofun⟩

/-- **The text of a literal is read as that literal.** -/
theorem read?_text {l : Literal} (hl : l.Finite) : read? l.text.toList = some l := by
  cases l with
  | bool b => cases b <;> rfl
  | int n =>
    obtain ⟨htrue, hfalse⟩ := number_text_ne_truth hl nofun
    have hwhole : ¬('.' ∈ (toString n).toList ∨ 'e' ∈ (toString n).toList) := by
      rintro (h | h) <;> rcases mem_toString_int h with h | h <;> cases h
    rw [read?, if_neg htrue, if_neg hfalse, text, if_neg hwhole, readInteger?_toString]
    rfl
  | float x =>
    obtain ⟨htrue, hfalse⟩ := number_text_ne_truth hl nofun
    have hmark := Double.point_or_exponent_mem_text_signed (hl x rfl)
    rw [read?, if_neg htrue, if_neg hfalse, text, if_pos hmark,
      Double.read?_text_signed (hl x rfl)]
    rfl

theorem text_inj {l l' : Literal} (hl : l.Finite) (hl' : l'.Finite) (h : l.text = l'.text) :
    l = l' := by
  have hread := read?_text hl
  rw [h, read?_text hl'] at hread
  exact (Option.some.inj hread).symm

end Literal

end DefToC
