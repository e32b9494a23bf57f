import LiveMarkup.Json.Basic
import LiveMarkup.Text.Numeral

/-!
# JSON tokens

A JSON text is cut into tokens by an automaton that takes one character at a time. A number ends at
the first character that cannot be part of one, and only then is its form checked.

* `Json.Rounding`: how the digits of a numeral make a number.
* `Json.readNumber`: the number of a numeral, if it has the form of one and is in range.
* `Json.tokens`: the tokens of a text, or nothing if some part of it is no token.
-/

namespace LiveMarkup.Json

/-- A token of a JSON text. -/
inductive Token where
  | openArray
  | closeArray
  | openObject
  | closeObject
  | colon
  | comma
  | scalar (value : Json)

/-! ## Numerals -/

def isDigit (c : Char) : Bool := '0' ≤ c && c ≤ '9'

/-- The digits at the front of a text, at least one, and what follows them. -/
def digits1 (cs : List Char) : Option (List Char × List Char) :=
  let ds := cs.takeWhile isDigit
  if ds.isEmpty then none else some (ds, cs.dropWhile isDigit)

/-- The value of a list of decimal digits. -/
def digitsValue (ds : List Char) : Nat :=
  ds.foldl (fun n c => n * 10 + (c.toNat - '0'.toNat)) 0

/-- The whole part: a lone zero, or digits that start with another one. -/
def wholePart (cs : List Char) : Option (List Char × List Char) :=
  match digits1 cs with
  | some ('0' :: _ :: _, _) => none
  | r => r

/-- The digits after a point, none if there is no point. -/
def fractionPart : List Char → Option (List Char × List Char)
  | '.' :: cs => digits1 cs
  | cs => some ([], cs)

/-- A power of ten, zero if there is none. -/
def exponentPart : List Char → Option Int
  | [] => some 0
  | c :: cs =>
    if c = 'e' ∨ c = 'E' then
      let (negative, ds) := match cs with
        | '-' :: ds => (true, ds)
        | '+' :: ds => (false, ds)
        | ds => (false, ds)
      match digits1 ds with
      | some (ds, []) => some (if negative then -(digitsValue ds : Int) else digitsValue ds)
      | _ => none
    else none

/-- How numerals become numbers. JSON says which numerals there are, and leaves it to the reader how near to
a decimal its number is. What is out of range is refused. -/
class Rounding where
  /-- The number of a sign, the digits before and behind the point, and a power of ten. -/
  number (negative : Bool) (whole part : List Char) (power : Int) : Option Number
  finite : ∀ {negative whole part power n}, number negative whole part power = some n →
    n.isNaN = false ∧ n.isInfinite = false

/-- The number nearest to the decimal. -/
instance Rounding.nearest : Rounding where
  number negative whole part power :=
    let n := Number.ofDecimal negative ⟨digitsValue (whole ++ part), power - part.length⟩
    if n.isInfinite then none else some n
  finite {negative whole part power n} h := by
    dsimp only at h
    split at h
    · cases h
    · next hfinite =>
      obtain rfl := Option.some.inj h
      exact ⟨Number.isNaN_ofDecimal _ _, Bool.eq_false_iff.2 hfinite⟩

variable [Rounding]

/-- The number of a numeral without its sign. -/
def readMagnitude (negative : Bool) (cs : List Char) : Option Number := do
  let (whole, rest) ← wholePart cs
  let (part, rest) ← fractionPart rest
  let power ← exponentPart rest
  Rounding.number negative whole part power

/-- The number of a numeral. -/
def readNumber : List Char → Option Number
  | '-' :: cs => readMagnitude true cs
  | cs => readMagnitude false cs

/-! ## The automaton -/

/-- What has been read of the token under way; letters and digits are kept in reverse. -/
inductive Partial where
  | between
  | word (letters : List Char)
  | numeral (chars : List Char)
  | string (chars : List Char)
  | escape (chars : List Char)
  /-- The digits of a character number; `high` is a first half waiting for its second. -/
  | unicode (chars : List Char) (high : Option Nat) (digits : List Char)
  /-- After a first half, where a backslash must follow. -/
  | afterHigh (chars : List Char) (high : Nat)
  /-- After that backslash, where the letter that introduces a number must follow. -/
  | half (chars : List Char) (high : Nat)

/-- The tokens so far in reverse, and the one under way. -/
structure Lexer where
  done : List Token
  current : Partial

/-- The value that a word spells. -/
def wordValue (letters : List Char) : Option Json :=
  match String.ofList letters.reverse with
  | "null" => some .null
  | "true" => some (.bool true)
  | "false" => some (.bool false)
  | _ => none

def isNumeralChar (c : Char) : Bool :=
  isDigit c || c == '.' || c == '-' || c == '+' || c == 'e' || c == 'E'

/-- The first character of a token, or a blank between two. -/
def Lexer.start (done : List Token) (c : Char) : Option Lexer :=
  match c with
  | ' ' | '\t' | '\n' | '\r' => some ⟨done, .between⟩
  | '[' => some ⟨.openArray :: done, .between⟩
  | ']' => some ⟨.closeArray :: done, .between⟩
  | '\x7b' => some ⟨.openObject :: done, .between⟩
  | '\x7d' => some ⟨.closeObject :: done, .between⟩
  | ':' => some ⟨.colon :: done, .between⟩
  | ',' => some ⟨.comma :: done, .between⟩
  | '\x22' => some ⟨done, .string []⟩
  | c =>
    if isDigit c || c == '-' then some ⟨done, .numeral [c]⟩
    else if 'a' ≤ c && c ≤ 'z' then some ⟨done, .word [c]⟩
    else none

/-- The characters after a complete character number, halves of a pair joined. -/
def Lexer.unit (done : List Token) (chars : List Char) (high : Option Nat) (unit : Nat) :
    Option Lexer :=
  match high with
  | some h =>
    if 0xdc00 ≤ unit ∧ unit ≤ 0xdfff then
      some ⟨done, .string (Char.ofNat (0x10000 + (h - 0xd800) * 0x400 + (unit - 0xdc00)) :: chars)⟩
    else none
  | none =>
    if 0xd800 ≤ unit ∧ unit ≤ 0xdbff then some ⟨done, .afterHigh chars unit⟩
    else if 0xdc00 ≤ unit ∧ unit ≤ 0xdfff then none
    else some ⟨done, .string (Char.ofNat unit :: chars)⟩

/-- The character that a letter after a backslash stands for. -/
def escaped : Char → Option Char
  | '\x22' => some '\x22'
  | '\\' => some '\\'
  | '/' => some '/'
  | 'b' => some '\x08'
  | 'f' => some '\x0c'
  | 'n' => some '\n'
  | 'r' => some '\r'
  | 't' => some '\t'
  | _ => none

/-- One more character. -/
def Lexer.step (l : Lexer) (c : Char) : Option Lexer :=
  match l.current with
  | .between => Lexer.start l.done c
  | .word letters =>
    if 'a' ≤ c && c ≤ 'z' then some ⟨l.done, .word (c :: letters)⟩
    else do Lexer.start (.scalar (← wordValue letters) :: l.done) c
  | .numeral chars =>
    if isNumeralChar c then some ⟨l.done, .numeral (c :: chars)⟩
    else do Lexer.start (.scalar (.number (← readNumber chars.reverse)) :: l.done) c
  | .string chars =>
    if c = '\x22' then some ⟨.scalar (.string (String.ofList chars.reverse)) :: l.done, .between⟩
    else if c = '\\' then some ⟨l.done, .escape chars⟩
    else if c.toNat < 0x20 then none
    else some ⟨l.done, .string (c :: chars)⟩
  | .escape chars =>
    if c = 'u' then some ⟨l.done, .unicode chars none []⟩
    else (escaped c).map fun e => ⟨l.done, .string (e :: chars)⟩
  | .unicode chars high digits =>
    if digits.length < 3 then some ⟨l.done, .unicode chars high (c :: digits)⟩
    else do Lexer.unit l.done chars high (← Text.readUnsigned 16 0x10000 (c :: digits).reverse)
  | .afterHigh chars high => if c = '\\' then some ⟨l.done, .half chars high⟩ else none
  | .half chars high => if c = 'u' then some ⟨l.done, .unicode chars (some high) []⟩ else none

/-- The tokens when the text ends. -/
def Lexer.finish (l : Lexer) : Option (List Token) :=
  match l.current with
  | .between => some l.done.reverse
  | .word letters => do some (.scalar (← wordValue letters) :: l.done).reverse
  | .numeral chars => do some (.scalar (.number (← readNumber chars.reverse)) :: l.done).reverse
  | _ => none

/-- The tokens of a text. -/
def tokens (s : String) : Option (List Token) := do
  (← s.toList.foldlM Lexer.step ⟨[], .between⟩).finish

end LiveMarkup.Json
