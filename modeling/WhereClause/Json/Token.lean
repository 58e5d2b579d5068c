import WhereClause.Json.Basic

/-!
# The tokens of a JSON text

A text is cut into tokens by a scanner that sees one character at a time. Between tokens the scanner skips spaces, tabs and
line ends. Brackets, commas and colons are tokens by themselves; the names `null`, `true` and `false`, numbers and strings
take several characters. A number has no closing mark, so it ends at the first character that cannot continue it, and that
character is then looked at again.
-/

namespace WhereClause.Json

/-- A token of a JSON text. -/
inductive Token where
  | openArray | closeArray | openObject | closeObject | comma | colon
  /-- A value that has no parts. -/
  | leaf (v : Json)
  /-- A string; none where it has no text. -/
  | string (text : Option String)

/-! ## Numbers -/

/-- What of a number has been seen last. -/
inductive NumberPart where
  | minus | zero | whole | point | fraction | exponent | exponentSign | power
  deriving DecidableEq, Repr

namespace NumberPart

/-- The part of a number that a character adds, if the number may go on with it. -/
def next? (p : NumberPart) (c : Char) : Option NumberPart :=
  match p with
  | .minus => if c = '0' then some .zero else if c.isDigit then some .whole else none
  | .zero => if c = '.' then some .point else if c = 'e' ∨ c = 'E' then some .exponent else none
  | .whole =>
    if c.isDigit then some .whole else if c = '.' then some .point else if c = 'e' ∨ c = 'E' then some .exponent else none
  | .point => if c.isDigit then some .fraction else none
  | .fraction => if c.isDigit then some .fraction else if c = 'e' ∨ c = 'E' then some .exponent else none
  | .exponent => if c = '+' ∨ c = '-' then some .exponentSign else if c.isDigit then some .power else none
  | .exponentSign => if c.isDigit then some .power else none
  | .power => if c.isDigit then some .power else none

end NumberPart

/-- The number that an integer spelling denotes. Minus zero is no integer. -/
def integer (spelling : List Char) : Json :=
  match spelling with
  | ['-', '0'] => .real spelling
  | '-' :: digits => .int (-(Nat.ofDigitChars 10 digits 0))
  | digits => .int (Nat.ofDigitChars 10 digits 0)

/-- The number that ends after a part, if it may end there. -/
def number? (p : NumberPart) (spelling : List Char) : Option Json :=
  match p with
  | .zero | .whole => some (integer spelling)
  | .fraction | .power => some (.real spelling)
  | .minus | .point | .exponent | .exponentSign => none

/-! ## Strings -/

/-- A piece of a string: a character, or a code unit that was written as `\u` and four hexadecimal digits. -/
inductive Piece where
  | char (c : Char)
  | unit (code : Nat)
  deriving DecidableEq, Repr

/-- The character that a letter stands for after a backslash. -/
def escaped? : Char → Option Char
  | '"' => some '"'
  | '\\' => some '\\'
  | '/' => some '/'
  | 'b' => some '\x08'
  | 'f' => some '\x0c'
  | 'n' => some '\n'
  | 'r' => some '\r'
  | 't' => some '\t'
  | _ => none

/-- The value of a hexadecimal digit, in either case. -/
def hexDigit? (c : Char) : Option Nat :=
  if '0' ≤ c ∧ c ≤ '9' then some (c.toNat - '0'.toNat)
  else if 'a' ≤ c ∧ c ≤ 'f' then some (c.toNat - 'a'.toNat + 10)
  else if 'A' ≤ c ∧ c ≤ 'F' then some (c.toNat - 'A'.toNat + 10)
  else none

/-- A code unit that opens a pair. -/
def isHighSurrogate (n : Nat) : Bool := 0xD800 ≤ n && n ≤ 0xDBFF

/-- A code unit that closes a pair. -/
def isLowSurrogate (n : Nat) : Bool := 0xDC00 ≤ n && n ≤ 0xDFFF

/-- The character beyond the basic plane that two code units stand for. -/
def pairChar (high low : Nat) : Char := .ofNat (0x10000 + (high - 0xD800) * 0x400 + (low - 0xDC00))

/-- The characters of a string: code units stand for themselves, or in pairs for characters beyond the basic plane. -/
def charsOfPieces? : List Piece → Option (List Char)
  | [] => some []
  | .char c :: ps => (charsOfPieces? ps).map (c :: ·)
  | [.unit n] => if isHighSurrogate n || isLowSurrogate n then none else some [.ofNat n]
  | .unit n :: .char c :: ps =>
    if isHighSurrogate n || isLowSurrogate n then none else (charsOfPieces? ps).map (.ofNat n :: c :: ·)
  | .unit n :: .unit m :: ps =>
    if isHighSurrogate n then
      if isLowSurrogate m then (charsOfPieces? ps).map (pairChar n m :: ·) else none
    else if isLowSurrogate n then none
    else (charsOfPieces? (.unit m :: ps)).map (.ofNat n :: ·)

/-- The text of a string. -/
def textOfPieces? (ps : List Piece) : Option String := (charsOfPieces? ps).map .ofList

/-! ## The scanner -/

/-- Where the scanner stands. What it has gathered of a string or a number is kept latest first. -/
inductive Scan where
  | between
  /-- Inside a name that goes on with `left` and then stands for `v`. -/
  | name (left : List Char) (v : Json)
  | number (part : NumberPart) (seen : List Char)
  | string (seen : List Piece)
  | escape (seen : List Piece)
  /-- After `\u`, with `left` more digits to come after the next one. -/
  | unit (seen : List Piece) (left : Nat) (code : Nat)

namespace Scan

/-- What a character does between tokens. -/
def start? (c : Char) : Option (List Token × Scan) :=
  match c with
  | ' ' | '\t' | '\n' | '\r' => some ([], .between)
  | '[' => some ([.openArray], .between)
  | ']' => some ([.closeArray], .between)
  | '{' => some ([.openObject], .between)
  | '}' => some ([.closeObject], .between)
  | ',' => some ([.comma], .between)
  | ':' => some ([.colon], .between)
  | '"' => some ([], .string [])
  | 'n' => some ([], .name ['u', 'l', 'l'] .null)
  | 't' => some ([], .name ['r', 'u', 'e'] (.bool true))
  | 'f' => some ([], .name ['a', 'l', 's', 'e'] (.bool false))
  | '-' => some ([], .number .minus ['-'])
  | c => (NumberPart.minus.next? c).map fun p => ([], .number p [c])

/-- The tokens that a character completes, and where the scanner stands after it. -/
def step? (s : Scan) (c : Char) : Option (List Token × Scan) :=
  match s with
  | .between => start? c
  | .name [] _ => none
  | .name [x] v => if c = x then some ([.leaf v], .between) else none
  | .name (x :: y :: left) v => if c = x then some ([], .name (y :: left) v) else none
  | .number p seen =>
    match p.next? c with
    | some q => some ([], .number q (c :: seen))
    | none => do
      let v ← number? p seen.reverse
      let (ts, s) ← start? c
      some (.leaf v :: ts, s)
  | .string seen =>
    if c = '"' then some ([.string (textOfPieces? seen.reverse)], .between)
    else if c = '\\' then some ([], .escape seen)
    else if c.toNat < 0x20 then none
    else some ([], .string (.char c :: seen))
  | .escape seen =>
    if c = 'u' then some ([], .unit seen 3 0) else (escaped? c).map fun d => ([], .string (.char d :: seen))
  | .unit seen 0 code => (hexDigit? c).map fun d => ([], .string (.unit (16 * code + d) :: seen))
  | .unit seen (left + 1) code => (hexDigit? c).map fun d => ([], .unit seen left (16 * code + d))

/-- The tokens that the end of the text completes. -/
def finish? : Scan → Option (List Token)
  | .between => some []
  | .number p seen => (number? p seen.reverse).map fun v => [.leaf v]
  | _ => none

/-- The tokens of the rest of a text. -/
def tokens? : Scan → List Char → Option (List Token)
  | s, [] => s.finish?
  | s, c :: cs => do
    let (ts, s) ← s.step? c
    let rest ← tokens? s cs
    some (ts ++ rest)

end Scan

/-- The tokens of a text. -/
def tokens? (cs : List Char) : Option (List Token) := Scan.between.tokens? cs

end WhereClause.Json
