import WhereClause.Proofs.Text.Digits
import WhereClause.Value

/-!
# Reading literals

A SQL literal is a string between single quotes, where a quote is written twice, a truth value, or a decimal integer
(`SqlLiteral.scan?`). A value that is written out is a literal of this value and nothing else, so different values are
written differently (`values_are_read_back`). In particular a string ends at the quote that its literal ends with, and
at no quote before it, whatever the string is and whatever follows.
-/

namespace WhereClause

namespace SqlLiteral

/-- What stands in a string literal up to the quote that ends it, and what is left behind that quote. -/
def inside? : List Char → Option (List Char × List Char)
  | [] => none
  | '\'' :: '\'' :: cs => (inside? cs).map fun (s, rest) => ('\'' :: s, rest)
  | '\'' :: cs => some ([], cs)
  | c :: cs => (inside? cs).map fun (s, rest) => (c :: s, rest)

/-- The number whose digits a text begins with, and what is left behind them. -/
def natural? (cs : List Char) : Option (Nat × List Char) :=
  if cs.takeWhile Char.isDigit = [] then none
  else some (Nat.ofDigitChars 10 (cs.takeWhile Char.isDigit) 0, cs.dropWhile Char.isDigit)

/-- The integer that a text begins with, with a sign or without, and what is left behind it. -/
def integer? : List Char → Option (Int × List Char)
  | '-' :: cs => (natural? cs).map fun (n, rest) => (-(n : Int), rest)
  | '+' :: cs => (natural? cs).map fun (n, rest) => ((n : Int), rest)
  | cs => (natural? cs).map fun (n, rest) => ((n : Int), rest)

/-- The value of the literal that a text begins with, and what is left behind it. Integers have 64 bits. -/
def scan? : List Char → Option (Value × List Char)
  | '\'' :: cs => (inside? cs).map fun (s, rest) => (.string (.ofList s), rest)
  | 't' :: 'r' :: 'u' :: 'e' :: cs => some (.boolean true, cs)
  | 'f' :: 'a' :: 'l' :: 's' :: 'e' :: cs => some (.boolean false, cs)
  | cs => do
    let (n, rest) ← integer? cs
    if Int64.minValue.toInt ≤ n ∧ n ≤ Int64.maxValue.toInt then some (.int (.ofInt n), rest) else none

example : scan? "'it''s' = ''".toList = some (.string "it's", " = ''".toList) := by decide +kernel

example : scan? "-9223372036854775809".toList = none := by decide +kernel

/-! ## Strings -/

/-- A character that is no quote belongs to the literal. -/
theorem inside?_cons {c : Char} (h : c ≠ '\'') (cs : List Char) :
    inside? (c :: cs) = (inside? cs).map fun (s, rest) => (c :: s, rest) := by
  rw [inside?]
  · exact fun _ hc _ => h hc
  · exact h

/-- A quote that is not followed by another one ends the literal. -/
theorem inside?_end {rest : List Char} (h : rest.head? ≠ some '\'') : inside? ('\'' :: rest) = some ([], rest) := by
  rw [inside?]
  rintro cs rfl
  exact h rfl

/-- The inside of a string literal is the string with its quotes doubled, up to a quote that is not doubled. -/
theorem inside?_eq_some_iff {t s rest : List Char} :
    inside? t = some (s, rest) ↔ t = Value.doubleQuotes s ++ '\'' :: rest ∧ rest.head? ≠ some '\'' := by
  constructor
  · intro h
    fun_induction inside? t generalizing s with
    | case1 => cases h
    | case2 cs ih =>
      obtain ⟨⟨s', rest'⟩, hs, h⟩ := Option.map_eq_some_iff.mp h
      cases h
      obtain ⟨rfl, hr⟩ := ih hs
      exact ⟨rfl, hr⟩
    | case3 cs hq =>
      cases h
      refine ⟨rfl, fun hr => ?_⟩
      obtain ⟨tail, rfl⟩ := List.head?_eq_some_iff.mp hr
      exact hq tail rfl
    | case4 c cs _ hc ih =>
      obtain ⟨⟨s', rest'⟩, hs, h⟩ := Option.map_eq_some_iff.mp h
      cases h
      obtain ⟨rfl, hr⟩ := ih hs
      exact ⟨by rw [Value.doubleQuotes, if_neg hc]; rfl, hr⟩
  · rintro ⟨rfl, hr⟩
    induction s with
    | nil => exact inside?_end hr
    | cons c s ih =>
      rw [Value.doubleQuotes]
      split
      next hc =>
        subst hc
        rw [List.cons_append, List.cons_append, inside?, ih]
        rfl
      next hc =>
        rw [List.cons_append, inside?_cons hc, ih]
        rfl

/-! ## Integers -/

/-- A number in decimal is read back up to the first character that is no digit. -/
theorem natural?_toDigits_append (n : Nat) {rest : List Char} (h : ∀ c ∈ rest.head?, c.isDigit = false) :
    natural? (Nat.toDigits 10 n ++ rest) = some (n, rest) := by
  have htake : (Nat.toDigits 10 n ++ rest).takeWhile Char.isDigit = Nat.toDigits 10 n := by
    rw [takeWhile_isDigit_append h, List.takeWhile_eq_self_iff.mpr isDigit_of_mem_digits]
  have hdrop : (Nat.toDigits 10 n ++ rest).dropWhile Char.isDigit = rest := by
    rw [dropWhile_isDigit_append h, List.dropWhile_eq_nil_iff.mpr isDigit_of_mem_digits, List.nil_append]
  rw [natural?, htake, hdrop, if_neg Nat.toDigits_ne_nil, Nat.ofDigitChars_ten_toDigits]

/-- A number in decimal begins with a digit. -/
theorem exists_toDigits_eq_cons (n : Nat) : ∃ c cs, Nat.toDigits 10 n = c :: cs ∧ c.isDigit = true := by
  cases h : Nat.toDigits 10 n with
  | nil => exact absurd h Nat.toDigits_ne_nil
  | cons c cs => exact ⟨c, cs, rfl, isDigit_of_mem_digits c (by rw [h]; exact List.mem_cons_self)⟩

/-- A text that begins with a digit begins with an integer without a sign. -/
theorem integer?_of_isDigit {c : Char} (h : c.isDigit = true) (cs : List Char) :
    integer? (c :: cs) = (natural? (c :: cs)).map fun (n, rest) => ((n : Int), rest) := by
  rw [integer?]
  all_goals
    intro cs' hcs
    obtain ⟨rfl, -⟩ := List.cons.inj hcs
    exact absurd h (by decide)

/-- An integer is read back up to there as well, with or without a sign. -/
theorem integer?_toString_append (n : Int) {rest : List Char} (h : ∀ c ∈ rest.head?, c.isDigit = false) :
    integer? ((toString n).toList ++ rest) = some (n, rest) := by
  cases n with
  | ofNat n =>
    obtain ⟨c, cs, hn, hc⟩ := exists_toDigits_eq_cons n
    have hint : integer? (Nat.toDigits 10 n ++ rest) =
        (natural? (Nat.toDigits 10 n ++ rest)).map fun (n, rest) => ((n : Int), rest) := by
      rw [hn]
      exact integer?_of_isDigit hc _
    rw [Int.ofNat_eq_natCast, toList_toString_ofNat, hint, natural?_toDigits_append n h]
    rfl
  | negSucc n =>
    rw [toList_toString_negSucc, List.cons_append, integer?, natural?_toDigits_append (n + 1) h]
    rfl

/-! ## Values -/

/-- A string is written with its quotes doubled and a quote at either end. -/
theorem toList_render_string (s : String) :
    (Value.string s).render.toList = '\'' :: (Value.doubleQuotes s.toList ++ ['\'']) := by
  rw [Value.render, String.toList_ofList]
  rfl

/-- A string literal is the written string and nothing else. It ends where no further quote follows. -/
theorem scan?_eq_string_iff {t rest : List Char} {s : String} :
    scan? t = some (.string s, rest) ↔ t = (Value.string s).render.toList ++ rest ∧ rest.head? ≠ some '\'' := by
  have htext : (Value.string s).render.toList ++ rest = '\'' :: (Value.doubleQuotes s.toList ++ '\'' :: rest) := by
    rw [toList_render_string, List.cons_append, List.append_assoc]
    rfl
  rw [htext]
  constructor
  · intro h
    -- Only a text that begins with a quote is read as a string.
    unfold scan? at h
    split at h
    next cs =>
      obtain ⟨⟨s', rest'⟩, hs, h⟩ := Option.map_eq_some_iff.mp h
      cases h
      obtain ⟨rfl, hr⟩ := inside?_eq_some_iff.mp hs
      rw [String.toList_ofList]
      exact ⟨rfl, hr⟩
    · cases h
    · cases h
    · obtain ⟨⟨n, rest'⟩, -, h⟩ := Option.bind_eq_some_iff.mp h
      dsimp only at h
      split at h
      · cases h
      · cases h
  · rintro ⟨rfl, hr⟩
    rw [scan?, inside?_eq_some_iff.mpr ⟨rfl, hr⟩, Option.map_some]
    simp only [String.ofList_toList]

/-- A text that begins with a digit or a minus begins with an integer. -/
theorem scan?_of_numeral {c : Char} (h : c.isDigit = true ∨ c = '-') (cs : List Char) :
    scan? (c :: cs) = (integer? (c :: cs)).bind fun (n, rest) =>
      if Int64.minValue.toInt ≤ n ∧ n ≤ Int64.maxValue.toInt then some (.int (.ofInt n), rest) else none := by
  rw [scan?]
  · rfl
  all_goals
    intro cs' hcs
    obtain ⟨rfl, -⟩ := List.cons.inj hcs
    revert h
    decide

/-- An integer is scanned up to the first character that is no digit. -/
theorem scan?_int_append (n : Int64) {rest : List Char} (h : ∀ c ∈ rest.head?, c.isDigit = false) :
    scan? ((Value.int n).render.toList ++ rest) = some (.int n, rest) := by
  obtain ⟨c, cs, htext, hc⟩ : ∃ c cs, (toString n.toInt).toList = c :: cs ∧ (c.isDigit = true ∨ c = '-') := by
    cases n.toInt with
    | ofNat n =>
      obtain ⟨c, cs, hn, hc⟩ := exists_toDigits_eq_cons n
      exact ⟨c, cs, (toList_toString_ofNat n).trans hn, .inl hc⟩
    | negSucc n => exact ⟨'-', _, toList_toString_negSucc n, .inr rfl⟩
  have hlo : Int64.minValue.toInt ≤ n.toInt := Int64.toInt_minValue ▸ n.le_toInt
  have hhi : n.toInt ≤ Int64.maxValue.toInt := Int64.toInt_maxValue ▸ Int.le_sub_one_of_lt n.toInt_lt
  have hint := integer?_toString_append n.toInt h
  rw [htext, List.cons_append] at hint
  rw [Value.render, htext, List.cons_append, scan?_of_numeral hc, hint, Option.bind_some]
  simp only [if_pos (And.intro hlo hhi), Int64.ofInt_toInt]

/-- A written value is read back, with what is behind it left over, unless that goes on where the value ends. -/
theorem scan?_render_append (v : Value) {rest : List Char}
    (h : ∀ c ∈ rest.head?, c ≠ '\'' ∧ c.isDigit = false) : scan? (v.render.toList ++ rest) = some (v, rest) := by
  cases v with
  | int n => exact scan?_int_append n fun c hc => (h c hc).2
  | string s => exact scan?_eq_string_iff.mpr ⟨rfl, fun hr => (h _ hr).1 rfl⟩
  | boolean b => cases b <;> rfl

end SqlLiteral

/-- A value that is written out is read as a literal of this value, to its end. A string is read from the literal that
it is written as and from no other text, and its literal ends there, whatever quotes are in the string, unless another
quote follows. Different values are written differently. -/
theorem values_are_read_back :
    (∀ v : Value, SqlLiteral.scan? v.render.toList = some (v, [])) ∧
    (∀ (s : String) (t rest : List Char), SqlLiteral.scan? t = some (.string s, rest) ↔
      t = (Value.string s).render.toList ++ rest ∧ rest.head? ≠ some '\'') ∧
    ∀ v w : Value, v.render = w.render → v = w := by
  have read (v : Value) : SqlLiteral.scan? v.render.toList = some (v, []) := by
    have h : SqlLiteral.scan? (v.render.toList ++ []) = some (v, []) := SqlLiteral.scan?_render_append v nofun
    rwa [List.append_nil] at h
  refine ⟨read, fun s t rest => SqlLiteral.scan?_eq_string_iff, fun v w h => ?_⟩
  have hv := read v
  rw [h, read w] at hv
  cases hv
  rfl

end WhereClause
