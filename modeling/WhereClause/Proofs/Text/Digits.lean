import Mathlib.Data.List.TakeWhile

/-!
# Digits within a text

A number in a text ends at the first character that is no digit. So the digits that a text begins with, and what is
left behind them, do not depend on what is appended, unless that begins with a digit. The decimal numeral of an integer
is its digits, with a minus in front if it is negative.
-/

namespace WhereClause

/-- The digits at the end of a text stay the same when what comes after it does not begin with a digit. -/
theorem takeWhile_isDigit_append {a b : List Char} (hb : ∀ c ∈ b.head?, c.isDigit = false) :
    (a ++ b).takeWhile Char.isDigit = a.takeWhile Char.isDigit := by
  have hd : b.takeWhile Char.isDigit = [] := by
    cases b with
    | nil => rfl
    | cons c b => exact List.takeWhile_cons_of_neg (by simpa using hb c rfl)
  rw [List.takeWhile_append, hd, List.append_nil]
  split
  next h => exact ((List.takeWhile_prefix Char.isDigit).eq_of_length h).symm
  · rfl

/-- What follows the digits of a text is kept, if no digit follows it. -/
theorem dropWhile_isDigit_append {a b : List Char} (hb : ∀ c ∈ b.head?, c.isDigit = false) :
    (a ++ b).dropWhile Char.isDigit = a.dropWhile Char.isDigit ++ b := by
  have hd : b.dropWhile Char.isDigit = b := by
    cases b with
    | nil => rfl
    | cons c b => exact List.dropWhile_cons_of_neg (by simpa using hb c rfl)
  rw [List.dropWhile_append, hd]
  split
  next h => rw [List.isEmpty_iff.mp h, List.nil_append]
  · rfl

/-- A number in decimal is made of digits. -/
theorem isDigit_of_mem_digits {n : Nat} : ∀ c ∈ Nat.toDigits 10 n, c.isDigit = true :=
  fun _ hc => Nat.isDigit_of_mem_toDigits (by decide) (by decide) hc

theorem toList_toString_ofNat (n : Nat) : (toString (n : Int)).toList = Nat.toDigits 10 n := by
  rw [show toString (n : Int) = Nat.repr n from rfl, Nat.toList_repr]

theorem toList_toString_negSucc (n : Nat) : (toString (Int.negSucc n)).toList = '-' :: Nat.toDigits 10 (n + 1) := by
  rw [show toString (Int.negSucc n) = "-" ++ Nat.repr (n + 1) from rfl, String.toList_append, Nat.toList_repr]
  rfl

end WhereClause
