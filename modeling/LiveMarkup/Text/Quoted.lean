import LiveMarkup.Text.Unprintable

/-!
# Quoted text

A text between double quotes in which the quote, the backslash and the common control characters
are written with a backslash, and every other character without a glyph of its own by its number.
-/

namespace LiveMarkup.Text

/-- The spelling of one character inside quotes. -/
def quoteChar (c : Char) : List Char :=
  match c with
  | '\x22' => ['\\', '\x22']
  | '\\' => ['\\', '\\']
  | '\n' => ['\\', 'n']
  | '\r' => ['\\', 'r']
  | '\t' => ['\\', 't']
  | '\x00' => ['\\', '0']
  | c =>
    if isUnprintable c then
      ['\\', 'u', '\x7b'] ++ Nat.toDigits 16 c.toNat ++ ['\x7d']
    else [c]

/-- A text in quotes. -/
def quote (s : String) : String :=
  String.ofList ('\x22' :: s.toList.flatMap quoteChar ++ ['\x22'])

end LiveMarkup.Text
