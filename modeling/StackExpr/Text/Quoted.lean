import StackExpr.Text.Extender
import StackExpr.Text.Printable

/-! Quoted text: what cannot be read off the page is written as an escape. -/
namespace StackExpr.Text

def hexDigits (n : Nat) : String := String.ofList (Nat.toDigits 16 n)

/-- A character with a short escape keeps it; extenders and unprintable characters are written by
code point; all others stand for themselves. -/
def escaped (c : Char) : String :=
  match c with
  | '\x00' => "\\0"
  | '\t' => "\\t"
  | '\n' => "\\n"
  | '\r' => "\\r"
  | '"' => "\\\""
  | '\\' => "\\\\"
  | c =>
    if isExtender c || !isPrintable c then "\\u\x7b" ++ hexDigits c.toNat ++ "\x7d"
    else c.toString

def quoted (s : String) : String :=
  "\"" ++ String.join (s.toList.map escaped) ++ "\""

end StackExpr.Text
