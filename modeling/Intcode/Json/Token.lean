/-! # The tokens of a JSON text

A text is cut into punctuation, the three words, numbers and strings. Blanks between tokens are
dropped; only four characters count as blanks. A number is everything that could belong to one,
provided the grammar of numbers accepts it; a string ends at its first quote that is not escaped. -/

namespace Intcode.Json

/-- A piece of a JSON text. -/
inductive Token
  | openBracket
  | closeBracket
  | openBrace
  | closeBrace
  | comma
  | colon
  | null
  | boolean (value : Bool)
  | number (written : List Char)
  | string (literal : List Char)
  deriving DecidableEq, Repr

namespace Token

/-- The blanks between tokens. -/
def isBlank (c : Char) : Bool :=
  c = ' ' || c = '\n' || c = '\t' || c = '\r'

def isDigit (c : Char) : Bool :=
  '0' ≤ c && c ≤ '9'

def inNumber (c : Char) : Bool :=
  isDigit c || c = '-' || c = '+' || c = '.' || c = 'e' || c = 'E'

/-- An integer part without superfluous zeros. -/
def isWhole (digits : List Char) : Bool :=
  digits.all isDigit &&
    match digits with
    | [] => false
    | ['0'] => true
    | first :: _ => first ≠ '0'

def isDigits (digits : List Char) : Bool :=
  !digits.isEmpty && digits.all isDigit

def isExponent : List Char → Bool
  | [] => true
  | mark :: rest =>
      (mark = 'e' || mark = 'E') &&
        match rest with
        | '+' :: digits => isDigits digits
        | '-' :: digits => isDigits digits
        | digits => isDigits digits

def isTail : List Char → Bool
  | '.' :: rest => isDigits (rest.takeWhile isDigit) && isExponent (rest.dropWhile isDigit)
  | rest => isExponent rest

def isUnsigned (written : List Char) : Bool :=
  isWhole (written.takeWhile isDigit) && isTail (written.dropWhile isDigit)

def isNumber : List Char → Bool
  | '-' :: written => isUnsigned written
  | written => isUnsigned written

def isHex (c : Char) : Bool :=
  isDigit c || ('a' ≤ c && c ≤ 'f') || ('A' ≤ c && c ≤ 'F')

def isEscape (c : Char) : Bool :=
  c = '"' || c = '\\' || c = '/' || c = 'b' || c = 'f' || c = 'n' || c = 'r' || c = 't'

/-- What stands before the quote that ends a string, and what behind it. Control characters have
to be escaped. -/
def takeString : List Char → Option (List Char × List Char)
  | [] => none
  | '"' :: rest => some ([], rest)
  | '\\' :: 'u' :: a :: b :: c :: d :: rest =>
      if isHex a && isHex b && isHex c && isHex d then
        (takeString rest).map fun (literal, rest) =>
          ('\\' :: 'u' :: a :: b :: c :: d :: literal, rest)
      else none
  | '\\' :: escape :: rest =>
      if isEscape escape then
        (takeString rest).map fun (literal, rest) => ('\\' :: escape :: literal, rest)
      else none
  | c :: rest =>
      if c = '\\' || c < ' ' then none
      else (takeString rest).map fun (literal, rest) => (c :: literal, rest)

/-- The first token of a text that does not begin with a blank, and what is behind it. -/
def next? : List Char → Option (Token × List Char)
  | '[' :: rest => some (.openBracket, rest)
  | ']' :: rest => some (.closeBracket, rest)
  | '\x7b' :: rest => some (.openBrace, rest)
  | '\x7d' :: rest => some (.closeBrace, rest)
  | ',' :: rest => some (.comma, rest)
  | ':' :: rest => some (.colon, rest)
  | 'n' :: 'u' :: 'l' :: 'l' :: rest => some (.null, rest)
  | 't' :: 'r' :: 'u' :: 'e' :: rest => some (.boolean true, rest)
  | 'f' :: 'a' :: 'l' :: 's' :: 'e' :: rest => some (.boolean false, rest)
  | '"' :: rest => (takeString rest).map fun (literal, rest) => (.string literal, rest)
  | text =>
      if isNumber (text.takeWhile inNumber) then
        some (.number (text.takeWhile inNumber), text.dropWhile inNumber)
      else none

/-- The tokens of a text, `fuel` of them at most. -/
def scanFor : (fuel : Nat) → List Char → Option (List Token)
  | fuel, text =>
      match text.dropWhile isBlank, fuel with
      | [], _ => some []
      | _, 0 => none
      | text, fuel + 1 =>
          match next? text with
          | none => none
          | some (token, rest) => (scanFor fuel rest).map (token :: ·)

/-- The tokens of a text. It has no more tokens than characters. -/
def scan (text : List Char) : Option (List Token) :=
  scanFor text.length text

end Token

end Intcode.Json
