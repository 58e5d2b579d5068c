import WhereClause.Json.Token

/-!
# How a document may be written

The JSON grammar, without a scanner: the texts of a number, of the inside of a string and of a token, and the texts of a
sequence of tokens, which may have blanks before, between and behind them. A document has one sequence of tokens
(`Json.tokens`); the texts that it may be written as are the layouts of that sequence (`Json.WrittenAs`). So a document
fixes its text up to blanks and to the escapes in its strings.
-/

namespace WhereClause.Json

/-! ## Numbers -/

/-- At least one digit. -/
def Digits (u : List Char) : Prop := u ≠ [] ∧ ∀ c ∈ u, c.isDigit = true

/-- Digits that begin with zero only if it is all there is. -/
def Whole (u : List Char) : Prop := Digits u ∧ (u.head? = some '0' → u = ['0'])

/-- What may stand in front of a number. -/
def Sign (u : List Char) : Prop := u = [] ∨ u = ['-']

/-- What may stand behind the whole part of a number: nothing, or a point and digits. -/
inductive Fraction : List Char → Prop
  | none : Fraction []
  | some {u : List Char} : Digits u → Fraction ('.' :: u)

/-- What may stand at the end of a number: nothing, or a power of ten, which may have a sign. -/
inductive Exponent : List Char → Prop
  | none : Exponent []
  | some {e : Char} {sign u : List Char} : e = 'e' ∨ e = 'E' → sign = [] ∨ sign = ['+'] ∨ sign = ['-'] → Digits u →
      Exponent (e :: (sign ++ u))

/-- The texts of a number. Without a fraction and an exponent it is an integer, unless it is minus zero; any other
number is kept as it is spelled. -/
inductive Number : List Char → Json → Prop
  | natural {u : List Char} : Whole u → Number u (.int (Nat.ofDigitChars 10 u 0))
  | negative {u : List Char} : Whole u → u ≠ ['0'] → Number ('-' :: u) (.int (-(Nat.ofDigitChars 10 u 0)))
  | minusZero : Number ['-', '0'] (.real ['-', '0'])
  | real {sign u fraction exponent : List Char} : Sign sign → Whole u → Fraction fraction → Exponent exponent →
      fraction ++ exponent ≠ [] →
      Number (sign ++ u ++ fraction ++ exponent) (.real (sign ++ u ++ fraction ++ exponent))

/-! ## Strings -/

/-- The number that hexadecimal digits denote. -/
def hexNumber? (u : List Char) : Option Nat := u.foldlM (fun n c => (hexDigit? c).map (16 * n + ·)) 0

/-- The texts that may stand between the quotes of a string, with the pieces that they are made of: a character that
stands for itself, an escaped one, or a code unit. -/
inductive Body : List Char → List Piece → Prop
  | nil : Body [] []
  | plain {c : Char} {u : List Char} {ps : List Piece} : c ≠ '"' → c ≠ '\\' → 0x20 ≤ c.toNat → Body u ps →
      Body (c :: u) (.char c :: ps)
  | letter {x c : Char} {u : List Char} {ps : List Piece} : escaped? x = some c → Body u ps →
      Body ('\\' :: x :: u) (.char c :: ps)
  | unit {n : Nat} {digits u : List Char} {ps : List Piece} : digits.length = 4 → hexNumber? digits = some n →
      Body u ps → Body ('\\' :: 'u' :: (digits ++ u)) (.unit n :: ps)

/-- The characters that the pieces of a string stand for. A code unit stands for a character by itself, or with a second
one for a character beyond the basic plane. -/
inductive Decodes : List Piece → List Char → Prop
  | nil : Decodes [] []
  | char {c : Char} {ps : List Piece} {cs : List Char} : Decodes ps cs → Decodes (.char c :: ps) (c :: cs)
  | unit {n : Nat} {ps : List Piece} {cs : List Char} : isHighSurrogate n = false → isLowSurrogate n = false →
      Decodes ps cs → Decodes (.unit n :: ps) (.ofNat n :: cs)
  | pair {high low : Nat} {ps : List Piece} {cs : List Char} : isHighSurrogate high = true →
      isLowSurrogate low = true → Decodes ps cs → Decodes (.unit high :: .unit low :: ps) (pairChar high low :: cs)

/-! ## Tokens -/

/-- The texts of a token. -/
inductive Token.Text : Token → List Char → Prop
  | openArray : Text .openArray ['[']
  | closeArray : Text .closeArray [']']
  | openObject : Text .openObject ['{']
  | closeObject : Text .closeObject ['}']
  | comma : Text .comma [',']
  | colon : Text .colon [':']
  | null : Text (.leaf .null) ['n', 'u', 'l', 'l']
  | true : Text (.leaf (.bool true)) ['t', 'r', 'u', 'e']
  | false : Text (.leaf (.bool false)) ['f', 'a', 'l', 's', 'e']
  | number {u : List Char} {v : Json} : Number u v → Text (.leaf v) u
  | string {u : List Char} {ps : List Piece} {cs : List Char} : Body u ps → Decodes ps cs →
      Text (.string (some (.ofList cs))) ('"' :: (u ++ ['"']))
  /-- A string whose code units do not pair up has no text. -/
  | unpaired {u : List Char} {ps : List Piece} : Body u ps → (∀ cs, ¬ Decodes ps cs) →
      Text (.string none) ('"' :: (u ++ ['"']))

/-- The characters that may stand between tokens. -/
def blanks : List Char := [' ', '\t', '\n', '\r']

/-- The texts of a sequence of tokens. -/
inductive Layout : List Token → List Char → Prop
  | nil : Layout [] []
  | blank {c : Char} {ts : List Token} {u : List Char} : c ∈ blanks → Layout ts u → Layout ts (c :: u)
  | token {t : Token} {ts : List Token} {u w : List Char} : t.Text u → Layout ts w → Layout (t :: ts) (u ++ w)

/-! ## Documents -/

mutual

/-- The tokens of a document. -/
def tokens : Json → List Token
  | .array items => .openArray :: ([Token.comma].intercalate (tokensOfItems items) ++ [.closeArray])
  | .object members => .openObject :: ([Token.comma].intercalate (tokensOfMembers members) ++ [.closeObject])
  | .string text => [.string text]
  | .null => [.leaf .null]
  | .bool b => [.leaf (.bool b)]
  | .int n => [.leaf (.int n)]
  | .real spelling => [.leaf (.real spelling)]

/-- The tokens of each item of an array. -/
def tokensOfItems : List Json → List (List Token)
  | [] => []
  | v :: vs => v.tokens :: tokensOfItems vs

/-- The tokens of each member of an object. -/
def tokensOfMembers : List (Option String × Json) → List (List Token)
  | [] => []
  | (key, v) :: rest => (.string key :: .colon :: v.tokens) :: tokensOfMembers rest

end

/-- A text in which a document may be written. -/
def WrittenAs (v : Json) (u : List Char) : Prop := Layout v.tokens u

theorem tokensOfItems_eq_map (vs : List Json) : tokensOfItems vs = vs.map tokens := by
  induction vs with
  | nil => rfl
  | cons v vs ih => rw [tokensOfItems, ih, List.map_cons]

/-- The tokens of a member are its key, a colon and those of its value. -/
theorem tokensOfMembers_eq_map (ms : List (Option String × Json)) :
    tokensOfMembers ms = ms.map fun m => .string m.1 :: .colon :: m.2.tokens := by
  induction ms with
  | nil => rfl
  | cons m ms ih => rw [tokensOfMembers, ih, List.map_cons]

end WhereClause.Json
