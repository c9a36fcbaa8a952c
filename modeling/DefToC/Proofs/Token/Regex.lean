import DefToC.Proofs.Token.Lexemes

/-!
# Patterns as regular expressions

Each pattern of the table is a regular expression. An expression may match several front parts of a
text, and they are tried in an order of preference: repeated and optional parts are taken with as
many characters as possible first. The first front part that fits is the match, also where a later
one would be longer. `Regex.ways` lists the front parts in this order.

For the patterns of the table the first front part is a longest one as well (`Regex.Takes`), and its
length is the one that the pattern counts (`Pattern.agrees_match?`).
-/

namespace DefToC

/-- A regular expression of the forms that patterns are made of. -/
inductive Regex where
  /-- No character. -/
  | empty
  /-- A character of a class. -/
  | one (p : Char → Bool)
  /-- Any number of characters of a class. -/
  | many (p : Char → Bool)
  /-- A part that may be left out. -/
  | optional (r : Regex)
  /-- One part behind the other. -/
  | seq (r s : Regex)

namespace Regex

/-- At least one character of a class. -/
def plus (p : Char → Bool) : Regex := seq (one p) (many p)

/-- A fixed text. -/
def text : List Char → Regex
  | [] => empty
  | c :: cs => seq (one (· == c)) (text cs)

/-- The lengths of the rows of characters of a class at the front of a text, the longest first. -/
def rows (p : Char → Bool) : List Char → List Nat
  | [] => [0]
  | c :: cs => if p c then (rows p cs).map (1 + ·) ++ [0] else [0]

/-- The lengths of the front parts of a text that the expression matches, in order of preference. -/
def ways : Regex → List Char → List Nat
  | empty, _ => [0]
  | one _, [] => []
  | one p, c :: _ => if p c then [1] else []
  | many p, cs => rows p cs
  | optional r, cs => r.ways cs ++ [0]
  | seq r s, cs => (r.ways cs).flatMap fun m => (s.ways (cs.drop m)).map (m + ·)

/-- The match of the expression, which is a longest front part that it matches. -/
structure Takes (r : Regex) (cs : List Char) (n : Nat) : Prop where
  first : (r.ways cs).head? = some n
  longest : ∀ m ∈ r.ways cs, m ≤ n

/-- The match of the expression is the given one, if there is one. -/
def Agrees (r : Regex) (cs : List Char) : Option Nat → Prop
  | some n => r.Takes cs n
  | none => r.ways cs = []

variable {p : Char → Bool} {r s : Regex} {c : Char} {cs : List Char} {n k : Nat}

@[simp] theorem agrees_none : r.Agrees cs none ↔ r.ways cs = [] := Iff.rfl

/-! ### Matches of the forms -/

theorem takes_empty (cs : List Char) : empty.Takes cs 0 := ⟨rfl, by simp [ways]⟩

@[simp] theorem ways_one_cons (p : Char → Bool) (c : Char) (cs : List Char) :
    (one p).ways (c :: cs) = if p c then [1] else [] := rfl

theorem ways_one_eq_nil (h : ∀ c ∈ cs.head?, p c = false) : (one p).ways cs = [] := by
  cases cs with
  | nil => rfl
  | cons c cs => simp [h c rfl]

theorem head?_ne {d : Char} (h : ∀ rest, cs ≠ d :: rest) : ∀ c ∈ cs.head?, (c == d) = false := by
  intro c hc
  rw [beq_eq_false_iff_ne]
  rintro rfl
  obtain ⟨rest, hrest⟩ := List.head?_eq_some_iff.1 hc
  exact h rest hrest

theorem head?_rows (p : Char → Bool) (cs : List Char) :
    (rows p cs).head? = some (cs.takeWhile p).length := by
  induction cs with
  | nil => rfl
  | cons c cs ih =>
    by_cases hc : p c = true
    · simp [rows, hc, ih, Nat.add_comm]
    · simp [rows, hc]

/-- The characters of a class at the front of a text, all of them or so many that another one
follows. -/
def WithinRun (p : Char → Bool) (cs : List Char) (m : Nat) : Prop :=
  m ≤ (cs.takeWhile p).length ∧
    (m ≠ (cs.takeWhile p).length → ∃ c ∈ (cs.drop m).head?, p c = true)

theorem withinRun_zero (hc : p c = true) (cs : List Char) : WithinRun p (c :: cs) 0 :=
  ⟨Nat.zero_le _, fun _ => ⟨c, rfl, hc⟩⟩

theorem WithinRun.cons {m : Nat} (h : WithinRun p cs m) (hc : p c = true) :
    WithinRun p (c :: cs) (1 + m) := by
  obtain ⟨hle, hstop⟩ := h
  unfold WithinRun
  rw [List.takeWhile_cons_of_pos hc, List.length_cons, Nat.add_comm 1, List.drop_succ_cons]
  exact ⟨by omega, fun hne => hstop (by omega)⟩

theorem withinRun_of_mem_rows {m : Nat} (h : m ∈ rows p cs) : WithinRun p cs m := by
  induction cs generalizing m with
  | nil =>
    obtain rfl : m = 0 := by simpa [rows] using h
    simp [WithinRun]
  | cons c cs ih =>
    by_cases hc : p c = true
    · simp only [rows, hc, if_true, List.mem_append, List.mem_map, List.mem_singleton] at h
      rcases h with ⟨m, hm, rfl⟩ | rfl
      · exact (ih hm).cons hc
      · exact withinRun_zero hc cs
    · obtain rfl : m = 0 := by simpa [rows, hc] using h
      simp [WithinRun, hc]

theorem takes_many (p : Char → Bool) (cs : List Char) :
    (many p).Takes cs (cs.takeWhile p).length :=
  ⟨head?_rows p cs, fun _ hm => (withinRun_of_mem_rows hm).1⟩

theorem Takes.optional (h : r.Takes cs n) : (optional r).Takes cs n := by
  obtain ⟨hfirst, hlongest⟩ := h
  refine ⟨by simp [ways, hfirst], fun m hm => ?_⟩
  rcases List.mem_append.1 hm with hm | hm
  · exact hlongest m hm
  · rw [List.mem_singleton.1 hm]
    exact Nat.zero_le n

theorem ways_optional_of_nil (h : r.ways cs = []) : (optional r).ways cs = [0] := by
  rw [ways, h, List.nil_append]

theorem takes_zero (h : r.ways cs = [0]) : r.Takes cs 0 := ⟨by simp [h], by simp [h]⟩

theorem ways_seq_eq_nil (h : ∀ m ∈ r.ways cs, s.ways (cs.drop m) = []) :
    (seq r s).ways cs = [] := by
  rw [ways, List.flatMap_eq_nil_iff]
  intro m hm
  rw [h m hm, List.map_nil]

/-- The second part is matched behind the match of the first. It is enough that no other way of the
first part comes further. -/
theorem Takes.seq (hr : r.Takes cs n) (hs : s.Takes (cs.drop n) k)
    (hother : ∀ m ∈ r.ways cs, m ≠ n → ∀ j ∈ s.ways (cs.drop m), m + j ≤ n + k) :
    (seq r s).Takes cs (n + k) := by
  constructor
  · obtain ⟨ms, hways⟩ := List.head?_eq_some_iff.1 hr.first
    obtain ⟨js, hrest⟩ := List.head?_eq_some_iff.1 hs.first
    simp [ways, hways, hrest]
  · intro m hm
    obtain ⟨i, hi, hm⟩ := List.mem_flatMap.1 hm
    obtain ⟨j, hj, rfl⟩ := List.mem_map.1 hm
    by_cases hin : i = n
    · subst hin
      exact Nat.add_le_add_left (hs.longest j hj) i
    · exact hother i hi hin j hj

theorem Takes.one_seq (hs : s.Takes cs k) (hc : p c = true) :
    (Regex.seq (one p) s).Takes (c :: cs) (1 + k) := by
  have hone : (one p).Takes (c :: cs) 1 := ⟨by simp [hc], by simp [hc]⟩
  refine hone.seq hs fun m hm hne => ?_
  simp [hc] at hm
  exact absurd hm hne

theorem ways_one_seq_eq_nil (h : ∀ c ∈ cs.head?, p c = false) : (seq (one p) s).ways cs = [] :=
  ways_seq_eq_nil fun m hm => by simp [ways_one_eq_nil h] at hm

/-- A run of characters: one that starts it and all that continue it. -/
theorem agrees_run (start part : Char → Bool) (cs : List Char) :
    (seq (one start) (many part)).Agrees cs (Pattern.runLength? start part cs) := by
  cases cs with
  | nil => rfl
  | cons c cs =>
    by_cases hc : start c = true
    · rw [Pattern.runLength?, if_pos hc]
      exact (takes_many part cs).one_seq hc
    · rw [Pattern.runLength?, if_neg hc]
      exact ways_one_seq_eq_nil (by simpa using hc)

theorem takes_plus (hc : p c = true) (cs : List Char) :
    (plus p).Takes (c :: cs) ((c :: cs).takeWhile p).length := by
  rw [List.takeWhile_cons_of_pos hc, List.length_cons, Nat.add_comm]
  exact (takes_many p cs).one_seq hc

theorem ways_plus_eq_nil (h : ∀ c ∈ cs.head?, p c = false) : (plus p).ways cs = [] :=
  ways_one_seq_eq_nil h

theorem withinRun_of_mem_plus {m : Nat} (h : m ∈ (plus p).ways cs) : WithinRun p cs m := by
  cases cs with
  | nil => cases h
  | cons c cs =>
    by_cases hc : p c = true
    · obtain ⟨j, hj, rfl⟩ : ∃ j ∈ rows p cs, 1 + j = m := by
        simpa [plus, ways, hc] using h
      exact (withinRun_of_mem_rows hj).cons hc
    · rw [ways_plus_eq_nil (by simpa using hc)] at h
      cases h

theorem agrees_text (t cs : List Char) : (text t).Agrees cs (Pattern.textLength? t cs) := by
  induction t generalizing cs with
  | nil =>
    rw [Pattern.textLength?, if_pos List.nil_prefix]
    exact takes_empty cs
  | cons d t ih =>
    cases cs with
    | nil =>
      rw [Pattern.textLength?, if_neg (by simp)]
      rfl
    | cons c cs =>
      by_cases hc : c = d
      · subst hc
        have hrest := ih cs
        by_cases ht : t <+: cs
        · rw [Pattern.textLength?, if_pos ht] at hrest
          rw [Pattern.textLength?, if_pos ((List.prefix_cons_inj c).2 ht), List.length_cons,
            Nat.add_comm]
          exact Takes.one_seq hrest (by simp)
        · rw [Pattern.textLength?, if_neg ht] at hrest
          rw [Pattern.textLength?, if_neg (by simpa using ht)]
          exact ways_seq_eq_nil fun m hm => by
            obtain rfl : m = 1 := by simpa using hm
            exact hrest
      · rw [Pattern.textLength?, if_neg (by simp [Ne.symm hc])]
        exact ways_one_seq_eq_nil (by simpa using hc)

/-! ### Characters of a match -/

/-- All characters that the expression can match satisfy `P`. -/
def Within (P : Char → Prop) : Regex → Prop
  | empty => True
  | one p | many p => ∀ c, p c = true → P c
  | optional r => r.Within P
  | seq r s => r.Within P ∧ s.Within P

theorem Within.forall_mem_take {P : Char → Prop} (h : r.Within P) (hn : n ∈ r.ways cs) :
    ∀ c ∈ cs.take n, P c := by
  induction r generalizing cs n with
  | empty =>
    obtain rfl : n = 0 := List.mem_singleton.1 hn
    simp
  | one p =>
    cases cs with
    | nil => cases hn
    | cons c cs =>
      obtain ⟨hc, rfl⟩ : p c = true ∧ n = 1 := by simpa using hn
      simpa using h c hc
  | many p =>
    intro c hc
    have hle := (withinRun_of_mem_rows hn).1
    apply h
    apply List.mem_takeWhile_imp (l := cs)
    exact (List.prefix_of_prefix_length_le (List.take_prefix n cs) (List.takeWhile_prefix p)
      ((List.length_take_le n cs).trans hle)).subset hc
  | optional r ih =>
    rcases List.mem_append.1 hn with hn | hn
    · exact ih h hn
    · rw [List.mem_singleton.1 hn]
      simp
  | seq r s ihr ihs =>
    obtain ⟨m, hm, hn⟩ := List.mem_flatMap.1 hn
    obtain ⟨k, hk, rfl⟩ := List.mem_map.1 hn
    rw [List.take_add]
    exact List.forall_mem_append.2 ⟨ihr h.1 hm, ihs h.2 hk⟩

theorem within_text {P : Char → Prop} {t : List Char} (h : ∀ c ∈ t, P c) : (text t).Within P := by
  induction t with
  | nil => trivial
  | cons d t ih =>
    obtain ⟨hd, ht⟩ := List.forall_mem_cons.1 h
    refine ⟨fun c hc => ?_, ih ht⟩
    rwa [beq_iff_eq.1 hc]

/-! ### Numbers -/

/-- A point and digits. -/
def fraction : Regex := seq (one (· == '.')) (many Char.isDigit)

/-- A sign, which may be left out. -/
def sign : Regex := optional (one fun c => c == '+' || c == '-')

/-- The letter of an exponent, a sign and digits. -/
def exponent : Regex :=
  seq (one fun c => c == 'e' || c == 'E') (seq sign (plus Char.isDigit))

/-- Digits, and a fraction and an exponent that may both be left out. -/
def number : Regex := seq (plus Char.isDigit) (seq (optional fraction) (optional exponent))

theorem agrees_plus (p : Char → Bool) (cs : List Char) :
    (plus p).Agrees cs (if cs.takeWhile p = [] then none else some (cs.takeWhile p).length) := by
  cases cs with
  | nil => rfl
  | cons c cs =>
    by_cases hc : p c = true
    · rw [if_neg (by simp [hc])]
      exact takes_plus hc cs
    · rw [if_pos (by simp [hc])]
      exact ways_plus_eq_nil (by simpa using hc)

/-- A sign is taken if there is one, and no digit stands in its place. -/
theorem ways_sign (cs : List Char) :
    (sign.ways cs = [1, 0] ∧ Pattern.signLength cs = 1 ∧ ∀ c ∈ cs.head?, c.isDigit = false) ∨
      (sign.ways cs = [0] ∧ Pattern.signLength cs = 0) := by
  unfold Pattern.signLength
  split
  · exact .inl ⟨rfl, rfl, by simp⟩
  · exact .inl ⟨rfl, rfl, by simp⟩
  · rename_i hplus hminus
    refine .inr ⟨ways_optional_of_nil (ways_one_eq_nil fun c hc => ?_), rfl⟩
    cases cs with
    | nil => cases hc
    | cons d cs =>
      obtain rfl : d = c := Option.some.inj hc
      simp only [Bool.or_eq_false_iff, beq_eq_false_iff_ne]
      exact ⟨fun h => hplus cs (h ▸ rfl), fun h => hminus cs (h ▸ rfl)⟩

theorem agrees_signed_digits (cs : List Char) :
    (seq sign (plus Char.isDigit)).Agrees cs
      (if (cs.drop (Pattern.signLength cs)).takeWhile Char.isDigit = [] then none
        else some (Pattern.signLength cs +
          ((cs.drop (Pattern.signLength cs)).takeWhile Char.isDigit).length)) := by
  have hdigits := agrees_plus Char.isDigit (cs.drop (Pattern.signLength cs))
  rcases ways_sign cs with ⟨hways, hlen, hhead⟩ | ⟨hways, hlen⟩
  · -- if the sign is left out, no digits follow
    have hskipped : (plus Char.isDigit).ways cs = [] := ways_plus_eq_nil hhead
    have hsign : sign.Takes cs 1 := ⟨by simp [hways], by simp [hways]⟩
    rw [hlen] at hdigits ⊢
    by_cases hnil : (cs.drop 1).takeWhile Char.isDigit = []
    · rw [if_pos hnil] at hdigits ⊢
      apply ways_seq_eq_nil
      simpa [hways, hskipped] using hdigits
    · rw [if_neg hnil] at hdigits ⊢
      apply hsign.seq hdigits
      simp [hways, hskipped]
  · have hsign : sign.Takes cs 0 := takes_zero hways
    rw [hlen] at hdigits ⊢
    by_cases hnil : (cs.drop 0).takeWhile Char.isDigit = []
    · rw [if_pos hnil] at hdigits ⊢
      apply ways_seq_eq_nil
      simpa [hways] using hdigits
    · rw [if_neg hnil] at hdigits ⊢
      apply hsign.seq hdigits
      simp [hways]

theorem takes_exponent (cs : List Char) :
    (optional exponent).Takes cs (Pattern.exponentLength cs) := by
  have hnone (h : exponent.ways cs = []) : (optional exponent).Takes cs 0 :=
    takes_zero (ways_optional_of_nil h)
  cases cs with
  | nil => exact hnone rfl
  | cons c cs =>
    have hdigits := agrees_signed_digits cs
    by_cases hc : c = 'e' ∨ c = 'E'
    · by_cases hnil : (cs.drop (Pattern.signLength cs)).takeWhile Char.isDigit = []
      · rw [if_pos hnil] at hdigits
        rw [Pattern.exponentLength, if_neg (by simp [hnil])]
        apply hnone
        apply ways_seq_eq_nil
        simpa [hc] using hdigits
      · rw [if_neg hnil] at hdigits
        rw [Pattern.exponentLength, if_pos ⟨hc, hnil⟩, Nat.add_assoc]
        exact (Takes.one_seq hdigits (by simpa using hc)).optional
    · rw [Pattern.exponentLength, if_neg (by simp [hc])]
      exact hnone (ways_one_seq_eq_nil (by simpa using hc))

/-- No exponent begins with a digit or a point. -/
theorem ways_exponent (h : ∀ c ∈ cs.head?, c.isDigit = true ∨ c = '.') :
    (optional exponent).ways cs = [0] := by
  refine ways_optional_of_nil (ways_one_seq_eq_nil fun c hc => ?_)
  rw [Bool.or_eq_false_iff, beq_eq_false_iff_ne, beq_eq_false_iff_ne]
  rcases h c hc with hdigit | rfl
  · constructor
    · rintro rfl
      cases hdigit
    · rintro rfl
      cases hdigit
  · decide

/-- What follows the digits of a number in front of another digit: nothing. -/
theorem ways_tail_of_digit (h : ∃ c ∈ cs.head?, c.isDigit = true) :
    (seq (optional fraction) (optional exponent)).ways cs = [0] := by
  obtain ⟨c, hc, hdigit⟩ := h
  have hhead : ∀ d ∈ cs.head?, d.isDigit = true := by
    intro d hd
    rwa [← Option.some.inj (hc.symm.trans hd)]
  have hfraction : (optional fraction).ways cs = [0] := by
    refine ways_optional_of_nil (ways_one_seq_eq_nil fun d hd => ?_)
    rw [beq_eq_false_iff_ne]
    rintro rfl
    cases hhead _ hd
  rw [ways, hfraction]
  simp [ways_exponent fun d hd => .inl (hhead d hd)]

theorem takes_tail (cs : List Char) : (seq (optional fraction) (optional exponent)).Takes cs
    (Pattern.fractionLength cs +
      Pattern.exponentLength (cs.drop (Pattern.fractionLength cs))) := by
  have hexponent := takes_exponent (cs.drop (Pattern.fractionLength cs))
  by_cases hpoint : ∃ ds, cs = '.' :: ds
  · obtain ⟨ds, rfl⟩ := hpoint
    have hfraction : fraction.Takes ('.' :: ds) (1 + (ds.takeWhile Char.isDigit).length) :=
      (takes_many Char.isDigit ds).one_seq rfl
    refine hfraction.optional.seq hexponent fun m hm hne j hj => ?_
    -- a fraction that is cut short, or left out, is followed by no exponent
    have hlast : (optional exponent).ways (('.' :: ds).drop m) = [0] := by
      rcases List.mem_append.1 hm with hm | hm
      · obtain ⟨i, hi, rfl⟩ : ∃ i ∈ rows Char.isDigit ds, 1 + i = m := by
          simpa [fraction, ways] using hm
        obtain ⟨d, hd, hdigit⟩ := (withinRun_of_mem_rows hi).2 (by omega)
        rw [Nat.add_comm, List.drop_succ_cons]
        apply ways_exponent
        intro c hc
        rw [← Option.some.inj (hd.symm.trans hc)]
        exact .inl hdigit
      · rw [List.mem_singleton.1 hm]
        exact ways_exponent (by simp)
    obtain rfl : j = 0 := by simpa [hlast] using hj
    exact Nat.le_add_right_of_le (hfraction.optional.longest m hm)
  · have hlen : Pattern.fractionLength cs = 0 := by
      unfold Pattern.fractionLength
      split
      · exact absurd ⟨_, rfl⟩ hpoint
      · rfl
    have hways : (optional fraction).ways cs = [0] := by
      apply ways_optional_of_nil
      apply ways_one_seq_eq_nil
      exact head?_ne fun ds hds => hpoint ⟨ds, hds⟩
    rw [hlen] at hexponent ⊢
    exact (takes_zero hways).seq hexponent (by simp [hways])

theorem agrees_number (cs : List Char) : number.Agrees cs (Pattern.numberLength? cs) := by
  have hdigits := agrees_plus Char.isDigit cs
  unfold Pattern.numberLength?
  dsimp only
  by_cases hnil : cs.takeWhile Char.isDigit = []
  · rw [if_pos hnil] at hdigits
    rw [hnil, if_pos List.length_nil]
    rw [agrees_none] at hdigits
    exact ways_seq_eq_nil (by simp [hdigits])
  · rw [if_neg hnil] at hdigits
    rw [if_neg (by simpa using hnil), Nat.add_assoc, ← List.drop_drop]
    refine Takes.seq hdigits (takes_tail _) fun m hm hne j hj => ?_
    -- digits that are cut short are followed by nothing
    obtain ⟨hle, hstop⟩ := withinRun_of_mem_plus hm
    obtain rfl : j = 0 := by simpa [ways_tail_of_digit (hstop hne)] using hj
    omega

end Regex

/-! ### The patterns of the table -/

namespace Pattern

open Regex

/-- The line end, with or without a carriage return. -/
def lineEndRegex : Regex := seq (optional (one (· == '\r'))) (one (· == '\n'))

/-- The regular expression of a pattern. -/
def regex : Pattern → Regex
  | word => seq (one isWordStart) (many isWordPart)
  | number => Regex.number
  | lineEnd => lineEndRegex
  | separators => plus isSeparator
  | joinedLine => seq (one (· == '\\')) lineEndRegex
  | comment => seq (one (· == '#')) (many (· != '\n'))
  | opening bracket _ => text [bracket]
  | closing bracket _ => text [bracket]
  | mark fixed _ => text fixed.toList

theorem agrees_lineEnd (cs : List Char) : lineEndRegex.Agrees cs (lineEndLength? cs) := by
  unfold lineEndLength?
  split
  · exact ⟨rfl, by simp [lineEndRegex, ways]⟩
  · exact ⟨rfl, by simp [lineEndRegex, ways]⟩
  · rename_i hfeed hreturn
    -- neither a line feed comes first nor a carriage return with a line feed behind it
    refine ways_seq_eq_nil fun m hm => ways_one_eq_nil (head?_ne fun rest hrest => ?_)
    rcases List.mem_append.1 hm with hm | hm
    · cases cs with
      | nil => cases hm
      | cons c cs =>
        obtain ⟨rfl, rfl⟩ : c = '\r' ∧ m = 1 := by simpa using hm
        exact hreturn rest (congrArg ('\r' :: ·) hrest)
    · obtain rfl : m = 0 := List.mem_singleton.1 hm
      exact hfeed rest hrest

theorem agrees_joinedLine (cs : List Char) :
    (seq (one (· == '\\')) lineEndRegex).Agrees cs (joinedLineLength? cs) := by
  unfold joinedLineLength?
  split
  · rename_i cs
    have hend := agrees_lineEnd cs
    cases hlen : lineEndLength? cs with
    | none =>
      rw [hlen] at hend
      apply ways_seq_eq_nil
      simpa using hend
    | some n =>
      rw [hlen] at hend
      exact Takes.one_seq hend rfl
  · rename_i hother
    exact ways_one_seq_eq_nil (head?_ne hother)

/-- **A pattern takes what its regular expression matches first**, and this is a longest front part
that it matches. -/
theorem agrees_match? (p : Pattern) (cs : List Char) : p.regex.Agrees cs (p.match? cs) := by
  cases p with
  | word => exact agrees_run isWordStart isWordPart cs
  | number => exact agrees_number cs
  | lineEnd => exact agrees_lineEnd cs
  | separators => exact agrees_run isSeparator isSeparator cs
  | joinedLine => exact agrees_joinedLine cs
  | comment => exact agrees_run _ _ cs
  | opening bracket _ => exact agrees_text [bracket] cs
  | closing bracket _ => exact agrees_text [bracket] cs
  | mark fixed _ => exact agrees_text fixed.toList cs

end Pattern

end DefToC
