import FormalLanguages.Symbol
import FormalLanguages.Text.Blank

/-! # Reading the written form of a sequence of symbols

A text is cut into tokens: `<name>` is one token, `ε` and blanks carry nothing, and any other
character is a token of its own (`scan`). A single character then stands for the nonterminal of
that name if one is declared, and for itself otherwise (`Form.read?`). The only fault is a bracket
that is never closed. -/

namespace FormalLanguages

/-- A **token** of a written form. -/
inductive Token where
  /-- A name between angle brackets. -/
  | bracketed (name : String)
  /-- A character that stands alone. -/
  | single (character : Char)
  deriving DecidableEq

namespace Token

/-- The characters that carry no symbol: `ε` and blanks. -/
def isSkipped (c : Char) : Bool := c == 'ε' || Text.isBlank c

mutual

/-- Cuts a text into tokens; there is no result if a bracket is never closed. -/
def scan : List Char → Option (List Token)
  | [] => some []
  | c :: rest =>
    if c = '<' then scanName [] rest
    else if isSkipped c then scan rest
    else (scan rest).map (single c :: ·)

/-- Goes on inside a bracket; `name` holds the characters since the bracket opened, last first. -/
def scanName (name : List Char) : List Char → Option (List Token)
  | [] => none
  | c :: rest =>
    if c = '>' then (scan rest).map (bracketed (String.ofList name.reverse) :: ·)
    else scanName (c :: name) rest

end

variable {c : Char} {rest : List Char}

/-- The empty text has no tokens. -/
@[simp] theorem scan_nil : scan [] = some [] := rfl

/-- A bracket opens. -/
@[simp] theorem scan_open : scan ('<' :: rest) = scanName [] rest := rfl

/-- A character that carries no symbol is passed over. -/
theorem scan_skipped (other : c ≠ '<') (skipped : isSkipped c = true) :
    scan (c :: rest) = scan rest := by
  rw [scan, if_neg other, if_pos skipped]

/-- Any other character is a token. -/
theorem scan_single (other : c ≠ '<') (carries : ¬ isSkipped c = true) :
    scan (c :: rest) = (scan rest).map (single c :: ·) := by
  rw [scan, if_neg other, if_neg carries]

/-- A bracket that is not closed is no token. -/
@[simp] theorem scanName_nil (name : List Char) : scanName name [] = none := rfl

/-- A bracket is closed. -/
@[simp] theorem scanName_close (name : List Char) :
    scanName name ('>' :: rest) =
      (scan rest).map (bracketed (String.ofList name.reverse) :: ·) := rfl

/-- Inside a bracket every other character belongs to the name. -/
theorem scanName_other (name : List Char) (other : c ≠ '>') :
    scanName name (c :: rest) = scanName (c :: name) rest := by
  rw [scanName, if_neg other]

/-- The symbol that a token stands for, given the declared names. -/
def resolve (declared : SortedSet String) : Token → Symbol
  | bracketed name => .nonterminal name
  | single c => if c.toString ∈ declared then .nonterminal c.toString else .terminal c

end Token

/-- Reads a written form; there is no result if a bracket is never closed. -/
def Form.read? (declared : SortedSet String) (text : String) : Option Form :=
  (Token.scan text.toList).map (·.map (Token.resolve declared))

end FormalLanguages
