import Mathlib.Data.List.Forall2
import WhereClause.Json.Compact
import WhereClause.Proofs.Json.Reading
import WhereClause.Proofs.Text.Digits

/-!
# Compact text is written in the grammar

The texts that `quote`, `compactArray` and `compactObject` put together are texts of a string, an array and an object,
without blanks (`text_quote`, `WrittenAs.array`, `WrittenAs.object`); the decimal numeral of an integer is a text of it
(`number_toString`).
-/

namespace WhereClause.Json

/-! ## Strings -/

/-- An escaped character is one piece of a string, which stands for the character. -/
theorem exists_body_escapeChar (c : Char) :
    ∃ p, Body (escapeChar c) [p] ∧ ∀ ps cs, Decodes ps cs → Decodes (p :: ps) (c :: cs) := by
  have letter {x d : Char} (hx : escaped? x = some d) :
      ∃ p, Body ['\\', x] [p] ∧ ∀ ps cs, Decodes ps cs → Decodes (p :: ps) (d :: cs) :=
    ⟨.char d, .letter hx .nil, fun _ _ => .char⟩
  unfold escapeChar
  split
  · exact letter rfl
  · exact letter rfl
  · exact letter rfl
  · exact letter rfl
  · exact letter rfl
  · exact letter rfl
  · exact letter rfl
  next hq hb _ _ _ _ _ =>
    split
    next hc =>
      have hhex : ∀ n < 0x20, hexNumber? ['0', '0', hexChar (n / 16), hexChar (n % 16)] = some n := by decide
      have hsurrogate : ∀ n < 0x20, isHighSurrogate n = false ∧ isLowSurrogate n = false := by decide
      refine ⟨.unit c.toNat, .unit rfl (hhex _ hc) .nil, fun ps cs h => ?_⟩
      have hd := Decodes.unit (hsurrogate _ hc).1 (hsurrogate _ hc).2 h
      rwa [Char.ofNat_toNat] at hd
    next hc => exact ⟨.char c, .plain hq hb (Nat.le_of_not_lt hc) .nil, fun _ _ => .char⟩

/-- Characters that are escaped one by one are the inside of a string that decodes to them. -/
theorem exists_body_flatMap (cs : List Char) : ∃ ps, Body (cs.flatMap escapeChar) ps ∧ Decodes ps cs := by
  induction cs with
  | nil => exact ⟨[], .nil, .nil⟩
  | cons c cs ih =>
    obtain ⟨ps, hb, hd⟩ := ih
    obtain ⟨p, hp, hc⟩ := exists_body_escapeChar c
    refine ⟨p :: ps, ?_, hc ps cs hd⟩
    rw [List.flatMap_cons]
    exact hp.append hb

/-- A quoted text is a text of the string. -/
theorem text_quote (s : String) : (Token.string (some s)).Text (quote s).toList := by
  obtain ⟨ps, hb, hd⟩ := exists_body_flatMap s.toList
  have ht := Token.Text.string hb hd
  rw [String.ofList_toList] at ht
  rw [quote, String.toList_ofList]
  exact ht

/-! ## Numbers -/

theorem digits_toDigits (n : Nat) : Digits (Nat.toDigits 10 n) :=
  ⟨Nat.toDigits_ne_nil, isDigit_of_mem_digits⟩

/-- Only zero has a numeral that begins with zero. -/
theorem head?_toDigits {n : Nat} (h : (Nat.toDigits 10 n).head? = some '0') : n = 0 := by
  induction n using Nat.strong_induction_on with
  | _ n ih =>
    by_cases hn : n < 10
    · rw [Nat.toDigits_of_lt_base hn] at h
      have hzero : ∀ m < 10, m.digitChar = '0' → m = 0 := by decide
      exact hzero n hn (Option.some.inj h)
    · rw [Nat.toDigits_of_base_le (by decide) (Nat.le_of_not_lt hn),
        List.head?_append_of_ne_nil _ Nat.toDigits_ne_nil] at h
      have := ih (n / 10) (by omega) h
      omega

/-- A number in decimal has no leading zero. -/
theorem whole_toDigits (n : Nat) : Whole (Nat.toDigits 10 n) := by
  refine ⟨digits_toDigits n, fun h => ?_⟩
  rw [head?_toDigits h]
  rfl

/-- The decimal numeral of an integer is a text of it. -/
theorem number_toString (n : Int) : Number (toString n).toList (.int n) := by
  cases n with
  | ofNat n =>
    have hn := Number.natural (whole_toDigits n)
    rwa [Nat.ofDigitChars_ten_toDigits, ← toList_toString_ofNat] at hn
  | negSucc n =>
    have h0 : Nat.toDigits 10 (n + 1) ≠ ['0'] := by
      intro h
      have := head?_toDigits (n := n + 1) (by rw [h]; rfl)
      omega
    have hn := Number.negative (whole_toDigits (n + 1)) h0
    rwa [Nat.ofDigitChars_ten_toDigits, ← toList_toString_negSucc] at hn

/-! ## Arrays and objects -/

theorem Layout.append {ts us : List Token} {u w : List Char} (h : Layout ts u) (h' : Layout us w) :
    Layout (ts ++ us) (u ++ w) := by
  induction h with
  | nil => exact h'
  | blank hc _ ih => exact .blank hc ih
  | token ht _ ih =>
    rw [List.append_assoc]
    exact .token ht ih

/-- The text of a token lays it out. -/
theorem layout_of_text {t : Token} {u : List Char} (h : t.Text u) : Layout [t] u := by
  have hl := Layout.token h .nil
  rwa [List.append_nil] at hl

/-- Blocks with commas between them. -/
theorem layout_intercalate {blocks : List (List Token)} {us : List (List Char)} (h : List.Forall₂ Layout blocks us) :
    Layout ([Token.comma].intercalate blocks) ([','].intercalate us) := by
  induction h with
  | nil => exact .nil
  | cons hb hrest ih =>
    cases hrest with
    | nil =>
      rw [List.intercalate_singleton, List.intercalate_singleton]
      exact hb
    | cons =>
      rw [List.intercalate_cons_cons, List.intercalate_cons_cons, List.append_assoc, List.append_assoc]
      exact hb.append ((layout_of_text .comma).append ih)

/-- Texts of documents are a text of their array, put between brackets. -/
theorem WrittenAs.array {vs : List Json} {ss : List String}
    (h : List.Forall₂ (fun (v : Json) (s : String) => v.WrittenAs s.toList) vs ss) :
    (Json.array vs).WrittenAs (compactArray ss).toList := by
  have hitems : Layout ([Token.comma].intercalate (vs.map tokens)) ([','].intercalate (ss.map String.toList)) := by
    refine layout_intercalate ?_
    rw [List.forall₂_map_left_iff, List.forall₂_map_right_iff]
    exact h
  have htext : (compactArray ss).toList = '[' :: ([','].intercalate (ss.map String.toList) ++ [']']) := by
    simp [compactArray, String.toList_intercalate]
  rw [WrittenAs, tokens_array, htext]
  exact .token .openArray (hitems.append (layout_of_text .closeArray))

/-- Texts of values are a text of their object, put behind their keys and between braces. -/
theorem WrittenAs.object {ms : List (Option String × Json)} {ss : List (String × String)}
    (h : List.Forall₂ (fun (m : Option String × Json) (s : String × String) =>
      m.1 = some s.1 ∧ m.2.WrittenAs s.2.toList) ms ss) :
    (Json.object ms).WrittenAs (compactObject ss).toList := by
  have hmember {m : Option String × Json} {s : String × String} (hm : m.1 = some s.1 ∧ m.2.WrittenAs s.2.toList) :
      Layout (memberTokens m) (quote s.1 ++ ":" ++ s.2).toList := by
    have hkey := layout_of_text (text_quote s.1)
    have htext : (quote s.1 ++ ":" ++ s.2).toList = (quote s.1).toList ++ ([':'] ++ s.2.toList) := by
      simp [String.toList_append]
    rw [memberTokens, hm.1, htext]
    exact hkey.append ((layout_of_text .colon).append hm.2)
  have hmembers : Layout ([Token.comma].intercalate (ms.map memberTokens))
      ([','].intercalate (ss.map fun s => (quote s.1 ++ ":" ++ s.2).toList)) := by
    refine layout_intercalate ?_
    rw [List.forall₂_map_left_iff, List.forall₂_map_right_iff]
    exact h.imp fun _ _ => hmember
  have htext : (compactObject ss).toList =
      '{' :: ([','].intercalate (ss.map fun s => (quote s.1 ++ ":" ++ s.2).toList) ++ ['}']) := by
    simp [compactObject, String.toList_intercalate, Function.comp_def]
  rw [WrittenAs, tokens_object, htext]
  exact .token .openObject (hmembers.append (layout_of_text .closeObject))

end WhereClause.Json
