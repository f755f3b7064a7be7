import CleanDiff.Text.Printable

/-!
# Quoted texts

A text between double quotes in which everything can be seen: quotes,
backslashes and the usual control characters are written with a backslash, any
other character that does not show by itself with its code in hexadecimal. A
single quote stays as it is.
-/

namespace CleanDiff.Text

/-- A character inside a quoted text. -/
def showChar (c : Char) : Text :=
  match c with
  | '"' => ['\\', '"']
  | '\\' => ['\\', '\\']
  | '\n' => ['\\', 'n']
  | '\r' => ['\\', 'r']
  | '\t' => ['\\', 't']
  | '\x00' => ['\\', '0']
  | c =>
      if isPrintable c then [c]
      else ['\\', 'u', '\x7b'] ++ Nat.toDigits 16 c.toNat ++ ['\x7d']

/-- The text between double quotes. -/
def quoted (t : Text) : Text := '"' :: (t.flatMap showChar ++ ['"'])

end CleanDiff.Text
