import FormalLanguages.Text.Extending
import FormalLanguages.Text.Unprintable

/-! # Quoted text

A text between double quotes in which every character can be told apart: quotes, backslashes and
line ends are escaped, and characters that would not be seen are shown by their code. -/

namespace FormalLanguages.Text

/-- A character shown by its code in hexadecimal digits. -/
def codeEscape (c : Char) : String :=
  "\\u\x7b" ++ String.ofList (Nat.toDigits 16 c.toNat) ++ "\x7d"

/-- A character as it is shown between quotes. -/
def quotedChar (c : Char) : String :=
  match c with
  | '\x00' => "\\0"
  | '\t' => "\\t"
  | '\r' => "\\r"
  | '\n' => "\\n"
  | '"' => "\\\""
  | '\\' => "\\\\"
  | c => if isExtending c || isUnprintable c then codeEscape c else c.toString

/-- A text between double quotes. -/
def quoted (text : String) : String :=
  "\"" ++ String.join (text.toList.map quotedChar) ++ "\""

end FormalLanguages.Text
