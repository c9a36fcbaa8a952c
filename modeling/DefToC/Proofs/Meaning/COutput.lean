import DefToC.Token.Pattern

/-!
# Reading the output as C

The part of C that expressions over integers and truth values need: how a text is cut into
tokens, how the operators bind, and what an expression means. Words of the language that are no
names are a parameter, since they differ between its versions.

An expression is read by operator precedence. What stands open on the left of the reader is kept
on a stack, and an operator closes all that binds at least as strongly as it does.
-/

namespace DefToC.C

/-! ### Operators -/

/-- The operators in front of an operand. -/
inductive UnOp where
  | plus
  | minus
  | not
  deriving DecidableEq

/-- The operators between two operands. -/
inductive BinOp where
  | mul
  | div
  | mod
  | add
  | sub
  | lt
  | le
  | gt
  | ge
  | eq
  | ne
  | and
  | or
  deriving DecidableEq

/-- How strongly an operator binds. -/
def BinOp.level : BinOp → Nat
  | or => 1
  | and => 2
  | eq | ne => 3
  | lt | le | gt | ge => 4
  | add | sub => 5
  | mul | div | mod => 6

/-- An expression. -/
inductive Tree where
  | number (n : Nat)
  | name (id : String)
  | unary (op : UnOp) (operand : Tree)
  | binary (op : BinOp) (left right : Tree)
  deriving DecidableEq

/-! ### Tokens -/

/-- The marks that expressions are written with. -/
inductive Mark where
  | openParen
  | closeParen
  | plus
  | minus
  | star
  | slash
  | percent
  | bang
  | less
  | lessEquals
  | greater
  | greaterEquals
  | equals
  | notEquals
  | ampersands
  | bars
  deriving DecidableEq

/-- A token of an expression. -/
inductive Token where
  | number (n : Nat)
  | name (id : String)
  | mark (m : Mark)
  deriving DecidableEq

/-- The operator that a mark is in front of an operand. -/
def Mark.unary? : Mark → Option UnOp
  | plus => some .plus
  | minus => some .minus
  | bang => some .not
  | _ => none

/-- The operator that a mark is behind an operand. -/
def Mark.binary? : Mark → Option BinOp
  | plus => some .add
  | minus => some .sub
  | star => some .mul
  | slash => some .div
  | percent => some .mod
  | less => some .lt
  | lessEquals => some .le
  | greater => some .gt
  | greaterEquals => some .ge
  | equals => some .eq
  | notEquals => some .ne
  | ampersands => some .and
  | bars => some .or
  | _ => none

/-- The mark that is a single character. -/
def Mark.ofChar? : Char → Option Mark
  | '(' => some openParen
  | ')' => some closeParen
  | '+' => some plus
  | '-' => some minus
  | '*' => some star
  | '/' => some slash
  | '%' => some percent
  | '!' => some bang
  | '<' => some less
  | '>' => some greater
  | _ => none

/-- The mark that is a pair of characters. -/
def Mark.ofPair? : Char × Char → Option Mark
  | ('<', '=') => some lessEquals
  | ('>', '=') => some greaterEquals
  | ('=', '=') => some equals
  | ('!', '=') => some notEquals
  | ('&', '&') => some ampersands
  | ('|', '|') => some bars
  | _ => none

/-- The pairs of characters that are always read together: the longer marks of the language,
and those that begin a comment. -/
def pairs : List (Char × Char) :=
  [('+', '+'), ('-', '-'), ('-', '>'), ('<', '<'), ('>', '>'), ('<', '='), ('>', '='), ('=', '='),
   ('!', '='), ('&', '&'), ('|', '|'), ('+', '='), ('-', '='), ('*', '='), ('/', '='), ('%', '='),
   ('&', '='), ('|', '='), ('^', '='), ('/', '/'), ('/', '*'), ('#', '#')]

/-- The value of an integer constant. With a zero in front it is written in eighths. -/
def constant? (cs : List Char) : Option Nat :=
  if !cs.all Char.isDigit then none
  else if cs.head? = some '0' then
    if cs.all (· < '8') then some (Nat.ofDigitChars 8 cs 0) else none
  else some (Nat.ofDigitChars 10 cs 0)

/-- The token of a word: a constant or a name. -/
def word? (keywords : List String) (cs : List Char) : Option Token :=
  if cs.head?.any Char.isDigit then (constant? cs).map .number
  else if String.ofList cs = "true" then some (.number 1)
  else if String.ofList cs = "false" then some (.number 0)
  else if String.ofList cs ∈ keywords then none
  else some (.name (String.ofList cs))

/-- Put the token of a word in front of the tokens behind it. -/
def endWord (keywords : List String) (word : List Char) (tokens : Option (List Token)) :
    Option (List Token) :=
  if word = [] then tokens else do return (← word? keywords word) :: (← tokens)

/-- The tokens of a text, behind the word that has been read so far. -/
def lex (keywords : List String) (word : List Char) : List Char → Option (List Token)
  | [] => endWord keywords word (some [])
  | [c] =>
    if isWordPart c then endWord keywords (word ++ [c]) (some [])
    else endWord keywords word (if isSeparator c then some [] else do
      return [.mark (← Mark.ofChar? c)])
  | c :: d :: cs =>
    if isWordPart c then lex keywords (word ++ [c]) (d :: cs)
    else endWord keywords word (
      if isSeparator c then lex keywords [] (d :: cs)
      else if (c, d) ∈ pairs then do return .mark (← Mark.ofPair? (c, d)) :: (← lex keywords [] cs)
      else do return .mark (← Mark.ofChar? c) :: (← lex keywords [] (d :: cs)))

/-! ### Trees -/

/-- What is open on the left of the reader. -/
inductive Frame where
  /-- A parenthesis. -/
  | paren
  /-- An operator that waits for its operand. -/
  | unary (op : UnOp)
  /-- An operator that waits for its right operand. -/
  | binary (left : Tree) (op : BinOp)

/-- Close the operators that bind at least as strongly as `level`. -/
def close (level : Nat) (e : Tree) : List Frame → Tree × List Frame
  | .unary op :: frames => close level (.unary op e) frames
  | .binary left op :: frames =>
    if level ≤ op.level then close level (.binary op left e) frames
    else (e, .binary left op :: frames)
  | frames => (e, frames)

/-- Read tokens, with or without an operand that has just been read. -/
def read (operand : Option Tree) (frames : List Frame) : List Token → Option Tree
  | [] =>
    match operand.map (close 0 · frames) with
    | some (e, []) => some e
    | _ => none
  | token :: tokens =>
    match operand, token with
    | none, .number n => read (some (.number n)) frames tokens
    | none, .name id => read (some (.name id)) frames tokens
    | none, .mark .openParen => read none (.paren :: frames) tokens
    | none, .mark m =>
      match m.unary? with
      | some op => read none (.unary op :: frames) tokens
      | none => none
    | some e, .mark .closeParen =>
      match close 0 e frames with
      | (e, .paren :: frames) => read (some e) frames tokens
      | _ => none
    | some e, .mark m =>
      match m.binary? with
      | some op =>
        let (left, frames) := close op.level e frames
        read none (.binary left op :: frames) tokens
      | none => none
    | some _, _ => none

/-- The expression that a text is read as. -/
def parse? (keywords : List String) (text : String) : Option Tree := do
  read none [] (← lex keywords [] text.toList)

/-! ### Meaning -/

/-- An integer of 32 bits. -/
def InRange (n : Int) : Prop := -2147483648 ≤ n ∧ n ≤ 2147483647

instance : DecidablePred InRange := fun _ => inferInstanceAs (Decidable (_ ∧ _))

/-- A result, which is not defined if it does not fit into 32 bits. -/
def fit (n : Int) : Option Int := if InRange n then some n else none

/-- The integer that stands for a truth value. -/
def truth (b : Bool) : Int := if b then 1 else 0

/-- What an operator makes of its operand. -/
def UnOp.apply : UnOp → Int → Option Int
  | plus, a => fit a
  | minus, a => fit (-a)
  | not, a => some (truth (a = 0))

/-- What an operator makes of its operands. Quotients are cut off towards zero, and a remainder
is defined only if the quotient is. -/
def BinOp.apply : BinOp → Int → Int → Option Int
  | add, a, b => fit (a + b)
  | sub, a, b => fit (a - b)
  | mul, a, b => fit (a * b)
  | div, a, b => if b = 0 then none else fit (a.tdiv b)
  | mod, a, b => if b = 0 then none else (fit (a.tdiv b)).bind fun _ => fit (a.tmod b)
  | lt, a, b => some (truth (a < b))
  | le, a, b => some (truth (a ≤ b))
  | gt, a, b => some (truth (a > b))
  | ge, a, b => some (truth (a ≥ b))
  | eq, a, b => some (truth (a = b))
  | ne, a, b => some (truth (a ≠ b))
  | and, a, b => some (truth (a ≠ 0 ∧ b ≠ 0))
  | or, a, b => some (truth (a ≠ 0 ∨ b ≠ 0))

/-- The value of an expression. The right operand of `&&` and `||` is left alone if the left one
decides. -/
def Tree.eval (env : String → Option Int) : Tree → Option Int
  | number n => fit n
  | name id => env id
  | unary op e => do op.apply (← e.eval env)
  | binary op left right => do
    let a ← left.eval env
    if op = .and ∧ a = 0 then return 0
    else if op = .or ∧ a ≠ 0 then return 1
    else op.apply a (← right.eval env)

end DefToC.C
