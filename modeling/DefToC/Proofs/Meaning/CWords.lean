import DefToC.Proofs.Meaning.Grammar
import DefToC.Proofs.Number.Numerals

/-!
# Names and numbers in C

How a text of C is cut into words. A word is a name or a number. A number is read as far as it can
be: a point goes on with it, and so does a sign behind the mark of its exponent. So a word that is
made of digits only is an integer constant, and no part of a longer number. A minus directly in
front of an integer constant is taken as its sign, for an operator of two operands is written with
blanks around it.

A separator ends the word in front of it, has none in itself and is no sign of the word behind it.
So the integer constants of a text with separators in it are those of its parts.
-/

namespace DefToC.C

/-! ### Words -/

/-- Does a word go on with the character? -/
def continues (word : List Char) (c : Char) : Bool :=
  isWordPart c || (word.head?.any Char.isDigit &&
    (c == '.' || ((c == '+' || c == '-') && word.getLast?.any (['e', 'E', 'p', 'P'].contains ·))))

/-- A word that has been read, unless it is empty. -/
def ended (word : List Char) : List (List Char) := if word = [] then [] else [word]

/-- The words of a text, behind what has been read of the first one. -/
def words (word : List Char) : List Char → List (List Char)
  | [] => ended word
  | c :: cs => if continues word c then words (word ++ [c]) cs else ended word ++ words [] cs

/-- The values of the integer constants of a text. There is none for a constant with a zero in front
and a digit that is too large for it. -/
def integers (cs : List Char) : List (Option Nat) :=
  ((words [] cs).filter (·.all Char.isDigit)).map constant?

/-- The words of a text, each with the answer to whether a minus stands directly in front of it. For
the first one it is given. -/
def signedWords (negative : Bool) (word : List Char) : List Char → List (Bool × List Char)
  | [] => (ended word).map (negative, ·)
  | c :: cs =>
    if continues word c then signedWords negative (word ++ [c]) cs
    else (ended word).map (negative, ·) ++ signedWords (c == '-') [] cs

/-- The value of an integer constant with its sign. -/
def signedValue (word : Bool × List Char) : Option Int :=
  (constant? word.2).map fun n => if word.1 then -(n : Int) else n

/-- The values of the integer constants of a text with their signs, behind a minus or not. -/
def signedIntegers (negative : Bool) (cs : List Char) : List (Option Int) :=
  ((signedWords negative [] cs).filter (·.2.all Char.isDigit)).map signedValue

/-- No word goes on with the character. -/
def isStop (c : Char) : Bool := !isWordPart c && !(['.', '+', '-'].contains c)

/-- No word begins in the text. -/
def isMarks (cs : List Char) : Bool := cs.all (!isWordPart ·)

/-- Does a minus stand directly in front of what follows the text? -/
def endsMinus (negative : Bool) : List Char → Bool
  | [] => negative
  | c :: cs => endsMinus (c == '-') cs

/-- No word begins in the text, none goes on with it, and it is no sign of what follows. -/
def separates (cs : List Char) : Bool :=
  isMarks cs && cs.head?.any isStop && !endsMinus false cs

variable {c : Char} {cs u v w : List Char} {b : Bool}

/-- Signs do not change the words. -/
theorem map_snd_signedWords : (signedWords b w cs).map Prod.snd = words w cs := by
  induction cs generalizing b w with
  | nil => simp [signedWords, words]
  | cons c cs ih =>
    rw [signedWords, words]
    split
    · exact ih
    · simp [ih]

/-- Without its sign, a constant has the value of its word. -/
theorem integers_eq_map (b : Bool) (cs : List Char) :
    integers cs = (signedIntegers b cs).map (Option.map Int.natAbs) := by
  have hvalue : Option.map Int.natAbs ∘ signedValue = constant? ∘ Prod.snd := by
    funext word
    obtain ⟨minus, word⟩ := word
    cases h : constant? word <;> cases minus <;> simp [signedValue, h]
  rw [integers, ← map_snd_signedWords (b := b), List.filter_map, List.map_map,
    signedIntegers, List.map_map, hvalue]
  rfl

theorem continues_of_isStop (h : isStop c = true) : continues w c = false := by
  simp only [isStop, Bool.and_eq_true, Bool.not_eq_true', List.contains_eq_mem,
    decide_eq_false_iff_not, List.mem_cons, List.not_mem_nil, or_false, not_or] at h
  obtain ⟨hpart, hpoint, hplus, hminus⟩ := h
  simp [continues, hpart, hpoint, hplus, hminus]

/-- The words in front of such a character end there. -/
theorem signedWords_append_stop (h : isStop c = true) :
    signedWords b w (u ++ c :: v) =
      signedWords b w u ++ signedWords (c == '-') [] v := by
  induction u generalizing b w with
  | nil => simp [signedWords, continues_of_isStop h]
  | cons d u ih =>
    rw [List.cons_append, signedWords, signedWords]
    split
    · exact ih
    · rw [ih, List.append_assoc]

theorem signedWords_append_marks (h : isMarks u = true) :
    signedWords b [] (u ++ v) = signedWords (endsMinus b u) [] v := by
  induction u generalizing b with
  | nil => rfl
  | cons c u ih =>
    simp only [isMarks, List.all_cons, Bool.and_eq_true, Bool.not_eq_true'] at h
    rw [List.cons_append, signedWords, if_neg (by simp [continues, h.1])]
    exact ih h.2

/-- Letters, digits and underscores go on with any word. -/
theorem signedWords_append_parts (h : ∀ c ∈ u, isWordPart c = true) :
    signedWords b w (u ++ v) = signedWords b (w ++ u) v := by
  induction u generalizing w with
  | nil => simp
  | cons c u ih =>
    obtain ⟨hc, hu⟩ := List.forall_mem_cons.1 h
    have hgo : continues w c = true := by simp [continues, hc]
    rw [List.cons_append, signedWords, if_pos hgo, ih hu, List.append_assoc,
      List.singleton_append]

/-- Points go on with a number. -/
theorem signedWords_append_number (hw : w.head?.any Char.isDigit = true)
    (h : ∀ c ∈ u, c.isDigit = true ∨ c = '.') :
    signedWords b w (u ++ v) = signedWords b (w ++ u) v := by
  induction u generalizing w with
  | nil => simp
  | cons c u ih =>
    obtain ⟨hc, hu⟩ := List.forall_mem_cons.1 h
    have hgo : continues w c = true := by
      rcases hc with hc | rfl
      · simp [continues, isWordPart_of_isDigit hc]
      · simp [continues, hw]
    have hhead : (w ++ [c]).head?.any Char.isDigit = true := by
      obtain _ | ⟨d, w⟩ := w
      · cases hw
      · exact hw
    rw [List.cons_append, signedWords, if_pos hgo, ih hhead hu, List.append_assoc,
      List.singleton_append]

/-- A sign goes on with a number behind the mark of its exponent. -/
theorem signedWords_exponent_sign (hw : w.head?.any Char.isDigit = true) :
    signedWords b (w ++ ['e']) ('-' :: v) = signedWords b (w ++ ['e', '-']) v := by
  have hgo : continues (w ++ ['e']) '-' = true := by
    obtain _ | ⟨d, w⟩ := w
    · cases hw
    · unfold continues
      rw [List.getLast?_concat]
      have hd : d.isDigit = true := hw
      simp [hd]
  rw [signedWords, if_pos hgo, List.append_assoc]
  rfl

/-- A text of letters, digits and underscores is the rest of a word. -/
theorem signedWords_parts (h : ∀ c ∈ u, isWordPart c = true) (hne : w ++ u ≠ []) :
    signedWords b w u = [(b, w ++ u)] := by
  have hparts := signedWords_append_parts (b := b) (w := w) (v := []) h
  rw [List.append_nil] at hparts
  rw [hparts, signedWords, ended, if_neg hne]
  rfl

/-! ### Integer constants -/

theorem signedIntegers_append_marks (h : isMarks u = true) :
    signedIntegers b (u ++ v) = signedIntegers (endsMinus b u) v := by
  rw [signedIntegers, signedWords_append_marks h, signedIntegers]

theorem signedIntegers_separated {sep : List Char} (h : separates sep = true) :
    signedIntegers b (u ++ sep ++ v) =
      signedIntegers b u ++ signedIntegers false v := by
  simp only [separates, Bool.and_eq_true, Bool.not_eq_true'] at h
  obtain ⟨⟨hmarks, hstop⟩, hminus⟩ := h
  obtain _ | ⟨c, rest⟩ := sep
  · cases hstop
  · have hrest : isMarks rest = true := (Bool.and_eq_true_iff.1 hmarks).2
    have hsign : endsMinus (c == '-') rest = false := hminus
    rw [List.append_assoc, List.cons_append, signedIntegers, signedWords_append_stop hstop,
      signedWords_append_marks hrest, hsign]
    simp [signedIntegers]

theorem signedIntegers_append_separator {sep : List Char} (h : separates sep = true) :
    signedIntegers b (u ++ sep) = signedIntegers b u := by
  have hsep := signedIntegers_separated (b := b) (u := u) (v := []) h
  rw [List.append_nil] at hsep
  exact hsep.trans (List.append_nil _)

theorem signedIntegers_intercalate {sep : List Char} (h : separates sep = true)
    (texts : List (List Char)) :
    signedIntegers false (sep.intercalate texts) = texts.flatMap (signedIntegers false) := by
  induction texts with
  | nil => rfl
  | cons text texts ih =>
    cases texts with
    | nil => simp
    | cons text' texts =>
      rw [List.intercalate_cons_cons, signedIntegers_separated h, ih]
      exact List.flatMap_cons.symm

/-- A text that is one word and not all digits has no integer constants. -/
theorem signedIntegers_eq_nil (hws : signedWords b [] cs = [(b, cs)])
    (h : ∃ c ∈ cs, c.isDigit = false) : signedIntegers b cs = [] := by
  obtain ⟨c, hc, hdigit⟩ := h
  have hall : cs.all Char.isDigit = false := List.all_eq_false.2 ⟨c, hc, by simp [hdigit]⟩
  simp [signedIntegers, hws, hall]

theorem signedIntegers_name (h : DefToC.IsName cs) : signedIntegers b cs = [] := by
  obtain ⟨c, cs, rfl, hc, hcs⟩ := h
  have hparts : ∀ d ∈ c :: cs, isWordPart d = true :=
    List.forall_mem_cons.2 ⟨isWordPart_of_isWordStart hc, hcs⟩
  exact signedIntegers_eq_nil (signedWords_parts hparts (List.cons_ne_nil c cs))
    ⟨c, List.mem_cons_self, not_isDigit_of_isWordStart hc⟩

/-- **A number in decimal digits is read as that number**, since no zero stands in front. -/
theorem signedIntegers_toDigits (n : Nat) :
    signedIntegers b (Nat.toDigits 10 n) = [some (if b then -(n : Int) else n)] := by
  have hdigits : ∀ c ∈ Nat.toDigits 10 n, c.isDigit = true := fun c hc => isDigit_of_mem_toDigits hc
  have hws : signedWords b [] (Nat.toDigits 10 n) = [(b, Nat.toDigits 10 n)] :=
    signedWords_parts (fun c hc => isWordPart_of_isDigit (hdigits c hc)) Nat.toDigits_ne_nil
  have hall : (Nat.toDigits 10 n).all Char.isDigit = true := List.all_eq_true.2 hdigits
  simp [signedIntegers, hws, hall, signedValue, constant?_toDigits]

/-! ### Literals -/

/-- A double is one word, and has a point or an exponent in it. -/
theorem signedIntegers_double {x : Double} (hx : x.isFinite = true) (hpos : x.negative = false) :
    signedIntegers b x.text.toList = [] := by
  obtain ⟨c, front, tail, e, htext, hc, hfront, htail⟩ := Double.isPlain_text hx hpos
  have hmark : ∃ d ∈ x.text.toList, d.isDigit = false := by
    rcases Double.point_or_exponent_mem_text hx hpos with h | h
    · exact ⟨_, h, rfl⟩
    · exact ⟨_, h, rfl⟩
  refine signedIntegers_eq_nil ?_ hmark
  rw [htext]
  have hhead : [c].head?.any Char.isDigit = true := hc
  have hfirst : signedWords b [] (c :: front ++ tail) = signedWords b (c :: front) tail := by
    have hstart := signedWords_append_parts (b := b) (w := []) (u := [c]) (v := front ++ tail)
      (List.forall_mem_singleton.2 (isWordPart_of_isDigit hc))
    exact hstart.trans (signedWords_append_number hhead hfront)
  rw [hfirst]
  cases htail with
  | none => simp [signedWords, ended]
  | some e =>
    have hmarked : signedWords b (c :: front) ('e' :: (toString e).toList) =
        signedWords b (c :: front ++ ['e']) (toString e).toList := rfl
    rw [hmarked]
    have hdigits (m : Nat) : ∀ d ∈ Nat.toDigits 10 m, isWordPart d = true :=
      fun d hd => isWordPart_of_isDigit (isDigit_of_mem_toDigits hd)
    rcases toString_int_cases e with ⟨m, hm, -⟩ | ⟨m, hm, -⟩
    · rw [hm, signedWords_parts (hdigits m) (by simp), List.append_assoc]
      rfl
    · -- the sign stands right behind the mark of the exponent
      rw [hm, signedWords_exponent_sign (w := c :: front) hc,
        signedWords_parts (hdigits m) (by simp), List.append_assoc]
      rfl

end DefToC.C

namespace DefToC

/-- The integer that a literal is written with, behind a minus or not. -/
def Literal.written (negative : Bool) : Literal → List Int
  | .int n => [if negative then -(n.natAbs : Int) else n]
  | _ => []

/-- **The integer constant of a literal's text is that integer with its sign**, and there is none
in any other literal. -/
theorem Literal.signedIntegers_text {l : Literal} (hl : l.Finite) (negative : Bool) :
    C.signedIntegers negative l.text.toList = (l.written negative).map some := by
  have hminus : C.isMarks ['-'] = true := rfl
  cases l with
  | bool b =>
    have hname : IsName (Literal.bool b).text.toList := by
      cases b <;> exact ⟨_, _, rfl, rfl, List.all_eq_true.1 rfl⟩
    exact C.signedIntegers_name hname
  | int n =>
    obtain ⟨m, rfl | rfl⟩ := n.eq_nat_or_neg
    · rw [text, toList_toString_natCast, C.signedIntegers_toDigits]
      rfl
    · cases m with
      | zero => cases negative <;> rfl
      | succ m =>
        rw [text, toList_toString_neg, ← List.singleton_append,
          C.signedIntegers_append_marks hminus, C.signedIntegers_toDigits, written, Int.natAbs_neg,
          Int.natAbs_natCast, ite_self]
        rfl
  | float x =>
    have hx : x.isFinite = true := hl x rfl
    obtain hpos | ⟨y, hpos, rfl⟩ := x.exists_eq_neg
    · exact C.signedIntegers_double hx hpos
    · rw [Double.isFinite_neg] at hx
      rw [text, Double.toList_text_neg hx hpos, ← List.singleton_append,
        C.signedIntegers_append_marks hminus]
      exact C.signedIntegers_double hx hpos

end DefToC
