import Wireframe.Number.Decimal
import Wireframe.Toml

/-!
# Words and quoted texts of a settings file

## Main definitions

* `Toml.quoted?`, `Toml.literal?` — texts on one line.
* `Toml.longQuoted?`, `Toml.longLiteral?` — texts that may run over several lines.
* `Toml.string?` — a text of any of the four forms.
* `Toml.word?` — the value of a word without quotes.
-/

namespace Wireframe

namespace Toml

/-! ### Characters -/

/-- Blanks may stand around every part of a line. -/
def isBlank (c : Char) : Bool :=
  c == ' ' || c == '\t'

/-- The text behind its leading blanks. -/
def skipBlanks (text : List Char) : List Char :=
  text.dropWhile isBlank

/-- Control characters other than the tab have no place in a line. -/
def isControl (c : Char) : Bool :=
  (c.toNat < 0x20 && c != '\t') || c.toNat == 0x7f

/-- The value of a hexadecimal digit. -/
def hexDigit? (c : Char) : Option Nat :=
  if c.isDigit then some (c.toNat - '0'.toNat)
  else if 'a' ≤ c ∧ c ≤ 'f' then some (c.toNat - 'a'.toNat + 10)
  else if 'A' ≤ c ∧ c ≤ 'F' then some (c.toNat - 'A'.toNat + 10)
  else none

/-- The character whose number is written in hexadecimal digits; none for a surrogate. -/
def coded? (digits : List Char) : Option Char := do
  let number ← digits.foldlM (fun n c => (hexDigit? c).map (n * 16 + ·)) 0
  if number.isValidChar then some (Char.ofNat number) else none

/-- The character that one letter after a backslash stands for. -/
def escaped? : Char → Option Char
  | 'b' => some '\x08'
  | 't' => some '\t'
  | 'n' => some '\n'
  | 'f' => some '\x0c'
  | 'r' => some '\r'
  | 'e' => some '\x1b'
  | '"' => some '"'
  | '\\' => some '\\'
  | _ => none

/-- The character that what follows a backslash stands for, and the text after it. -/
def escape? : List Char → Option (Char × List Char)
  | 'x' :: a :: b :: rest => (coded? [a, b]).map (·, rest)
  | 'u' :: a :: b :: c :: d :: rest => (coded? [a, b, c, d]).map (·, rest)
  | 'U' :: a :: b :: c :: d :: e :: f :: g :: h :: rest =>
    (coded? [a, b, c, d, e, f, g, h]).map (·, rest)
  | c :: rest => (escaped? c).map (·, rest)
  | [] => none

/-- One line end, and what follows it. -/
def newline? : List Char → Option (List Char)
  | '\n' :: rest => some rest
  | '\r' :: '\n' :: rest => some rest
  | _ => none

/-! ### Texts -/

/-- A text, and what follows it. -/
abbrev Found :=
  List Char × List Char

/-- A text with something in front of it. -/
def prepend (front : List Char) (found : Found) : Found :=
  (front ++ found.1, found.2)

/-- The rest of a text in double quotes that has at most `size` characters. -/
def quoted? : Nat → List Char → Option Found
  | 0, _ => none
  | _ + 1, '"' :: rest => some ([], rest)
  | size + 1, '\\' :: rest => do
    let (c, rest) ← escape? rest
    (quoted? size rest).map (prepend [c])
  | size + 1, c :: rest =>
    if isControl c then none else (quoted? size rest).map (prepend [c])
  | _ + 1, [] => none

/-- The rest of a text in single quotes. -/
def literal? : List Char → Option Found
  | [] => none
  | '\'' :: rest => some ([], rest)
  | c :: rest => if isControl c then none else (literal? rest).map (prepend [c])

/-- The end of a text in tripled quotes: two more quotes still belong to the text. -/
def longEnd? (quote : Char) (text : List Char) : Option Found :=
  let quotes := text.takeWhile (· == quote)
  if quotes.length < 3 then none
  else
    let inside := (quotes.drop 3).take 2
    some (inside, text.drop (inside.length + 3))

/-- Skip blanks and line ends. -/
def skipSpace : List Char → List Char
  | '\n' :: rest => skipSpace rest
  | '\r' :: '\n' :: rest => skipSpace rest
  | c :: rest => if isBlank c then skipSpace rest else c :: rest
  | [] => []

/-- The rest of a text in tripled double quotes that has at most `size` characters. A backslash at
the end of a line joins the line to the next text. -/
def longQuoted? : Nat → List Char → Option Found
  | 0, _ => none
  | size + 1, text =>
    match longEnd? '"' text, newline? text, text with
    | some found, _, _ => some found
    | none, some rest, _ => (longQuoted? size rest).map (prepend ['\n'])
    | none, none, '\\' :: rest =>
      match newline? (skipBlanks rest) with
      | some rest => longQuoted? size (skipSpace rest)
      | none => do
        let (c, rest) ← escape? rest
        (longQuoted? size rest).map (prepend [c])
    | none, none, c :: rest =>
      if isControl c then none else (longQuoted? size rest).map (prepend [c])
    | none, none, [] => none

/-- The rest of a text in tripled single quotes that has at most `size` characters. -/
def longLiteral? : Nat → List Char → Option Found
  | 0, _ => none
  | size + 1, text =>
    match longEnd? '\'' text, newline? text, text with
    | some found, _, _ => some found
    | none, some rest, _ => (longLiteral? size rest).map (prepend ['\n'])
    | none, none, c :: rest =>
      if isControl c then none else (longLiteral? size rest).map (prepend [c])
    | none, none, [] => none

/-- A text on one line, and what follows it. -/
def shortString? : List Char → Option Found
  | '"' :: rest => quoted? (rest.length + 1) rest
  | '\'' :: rest => literal? rest
  | _ => none

/-- A text of any form, and what follows it. A line end right after tripled quotes is no part of
the text. -/
def string? (text : List Char) : Option Found :=
  let inside (rest : List Char) := (newline? rest).getD rest
  match text with
  | '"' :: '"' :: '"' :: rest => longQuoted? (rest.length + 1) (inside rest)
  | '\'' :: '\'' :: '\'' :: rest => longLiteral? (rest.length + 1) (inside rest)
  | _ => shortString? text

/-! ### Numbers -/

/-- Digits with the single underscores between them left out. -/
def ungroup? (isDigit : Char → Bool) : List Char → Option (List Char)
  | [] => none
  | [c] => if isDigit c then some [c] else none
  | c :: '_' :: rest => if isDigit c then (ungroup? isDigit rest).map (c :: ·) else none
  | c :: rest => if isDigit c then (ungroup? isDigit rest).map (c :: ·) else none

/-- The number that digits denote in a base. -/
def number? (base : Nat) (digits : List Char) : Option Nat := do
  let digits ← ungroup? (fun c => (hexDigit? c).any (· < base)) digits
  digits.foldlM (fun n c => (hexDigit? c).map (n * base + ·)) 0

/-- A sign at the front, if there is one, and what follows it. -/
def takeSign : List Char → List Char × List Char
  | '+' :: rest => (['+'], rest)
  | '-' :: rest => (['-'], rest)
  | text => ([], text)

/-- Whether digits form a whole number: only zero itself starts with a zero. -/
def isWhole (digits : List Char) : Bool :=
  (ungroup? Char.isDigit digits).isSome && (digits.head? != some '0' || digits.length == 1)

/-- A whole number in the usual digits, or without a sign in another base. -/
def integer? (word : List Char) : Option Int :=
  match word with
  | '0' :: 'x' :: digits => (number? 16 digits).map Int.ofNat
  | '0' :: 'o' :: digits => (number? 8 digits).map Int.ofNat
  | '0' :: 'b' :: digits => (number? 2 digits).map Int.ofNat
  | _ =>
    let (sign, digits) := takeSign word
    if isWhole digits then
      (number? 10 digits).map fun n => if sign = ['-'] then -(n : Int) else (n : Int)
    else none

/-- The whole numbers that can be held: those of 128 bits, with or without a sign. -/
def fits (n : Int) : Bool :=
  -Int.pow 2 127 ≤ n && n < Int.pow 2 128

/-- Whether a character stands among the digits of a number. -/
def isGrouped (c : Char) : Bool :=
  c.isDigit || c == '_'

/-- The digits after a point, or nothing where there is no point. -/
def fraction? : List Char → Option Found
  | '.' :: rest =>
    (ungroup? Char.isDigit (rest.takeWhile isGrouped)).map fun digits =>
      ('.' :: digits, rest.dropWhile isGrouped)
  | text => some ([], text)

/-- An exponent that ends a number, or nothing at the end. -/
def exponent? : List Char → Option (List Char)
  | [] => some []
  | c :: rest =>
    let (sign, digits) := takeSign rest
    if c == 'e' || c == 'E' then
      (ungroup? Char.isDigit digits).map fun digits => 'e' :: sign ++ digits
    else none

/-- A number with a point or an exponent. -/
def decimal? (word : List Char) : Option TomlValue := do
  let (sign, unsigned) := takeSign word
  let whole := unsigned.takeWhile isGrouped
  let (fraction, rest) ← fraction? (unsigned.dropWhile isGrouped)
  let exponent ← exponent? rest
  guard (isWhole whole && !(fraction ++ exponent).isEmpty)
  let digits := whole.filter (· != '_')
  match readNumber? (String.ofList (sign ++ digits ++ fraction ++ exponent)) with
  | some x => return .float x
  | none => return .outOfRange (String.ofList word)

/-- A number with a point or an exponent, or one of the two that are no numbers. -/
def float? (word : List Char) : Option TomlValue :=
  let (sign, unsigned) := takeSign word
  if unsigned = "inf".toList then
    some (.float (if sign = ['-'] then -(1.0 / 0.0) else 1.0 / 0.0))
  else if unsigned = "nan".toList then some (.float (0.0 / 0.0))
  else decimal? word

/-! ### Dates and times -/

/-- The number of two digits. -/
def pair? (a b : Char) : Option Nat :=
  if a.isDigit && b.isDigit then
    some (10 * (a.toNat - '0'.toNat) + (b.toNat - '0'.toNat))
  else none

/-- The number of days in a month. -/
def daysIn (year month : Nat) : Nat :=
  if month = 2 then
    if year % 4 = 0 ∧ (year % 100 ≠ 0 ∨ year % 400 = 0) then 29 else 28
  else if month = 4 ∨ month = 6 ∨ month = 9 ∨ month = 11 then 30
  else 31

/-- What follows a date. -/
def date? : List Char → Option (List Char)
  | a :: b :: c :: d :: '-' :: e :: f :: '-' :: g :: h :: rest => do
    let year := 100 * (← pair? a b) + (← pair? c d)
    let month ← pair? e f
    let day ← pair? g h
    guard (1 ≤ month && month ≤ 12 && 1 ≤ day && day ≤ daysIn year month)
    return rest
  | _ => none

/-- What follows the seconds of a time, if it has any. -/
def seconds? : List Char → Option (List Char)
  | ':' :: a :: b :: rest => do
    guard ((← pair? a b) ≤ 60)
    match rest with
    | '.' :: rest =>
      guard ((rest.head?).any Char.isDigit)
      return rest.dropWhile Char.isDigit
    | _ => return rest
  | text => some text

/-- What follows a time. -/
def time? : List Char → Option (List Char)
  | a :: b :: ':' :: c :: d :: rest => do
    guard ((← pair? a b) ≤ 23 && (← pair? c d) ≤ 59)
    seconds? rest
  | _ => none

/-- Whether a text is a distance from the time of day in Greenwich, or nothing. -/
def isZone : List Char → Bool
  | [] => true
  | ['Z'] => true
  | ['z'] => true
  | [sign, a, b, ':', c, d] =>
    (sign == '+' || sign == '-') && (pair? a b).any (· ≤ 23) && (pair? c d).any (· ≤ 59)
  | _ => false

/-- Whether a text is a date, a time, or a date and a time. -/
def isMoment (text : List Char) : Bool :=
  match date? text with
  | some [] => true
  | some (mark :: rest) => (mark == 'T' || mark == 't' || mark == ' ') && (time? rest).any isZone
  | none => time? text == some []

/-! ### Words -/

/-- The characters of values without quotes. -/
def isWordChar (c : Char) : Bool :=
  c.isAlphanum || c == '_' || c == '-' || c == '+' || c == '.' || c == ':'

/-- A word, and what follows it. A date goes on over a blank if a digit follows. -/
def takeWord (text : List Char) : Found :=
  let word := text.takeWhile isWordChar
  match text.dropWhile isWordChar with
  | ' ' :: c :: rest =>
    if date? word = some [] ∧ c.isDigit then
      (word ++ ' ' :: (c :: rest).takeWhile isWordChar, (c :: rest).dropWhile isWordChar)
    else (word, ' ' :: c :: rest)
  | rest => (word, rest)

/-- The value of a word. -/
def word? (word : List Char) : Option TomlValue :=
  if word = "true".toList then some (.boolean true)
  else if word = "false".toList then some (.boolean false)
  else if isMoment word then some (.moment (String.ofList word))
  else
    match integer? word with
    | some n => some (if fits n then .integer n else .outOfRange (String.ofList word))
    | none => float? word

end Toml

end Wireframe
