import Mathlib.Tactic.Ring
import WhereClause.Calendar.Moment
import WhereClause.Proofs.Calendar.Days

/-!
# The texts of moments

A stamp is what the text of a moment says: a date of the years 0000 to 9999, a time of day that may name a sixtieth
second, and how the clock is set. Its characters are written from left to right (`Stamp.chars`), each number in as many
digits as its place has; they may stand between blanks (`Stamp.Spells`). Reading them gives back what they say
(`Stamp.ofText_of_spells`).
-/

namespace WhereClause

/-- The last digits of a number, as many as its place has. -/
def decimal : (width : Nat) → Nat → List Char
  | 0, _ => []
  | width + 1, n => Nat.digitChar (n / 10 ^ width % 10) :: decimal width n

example : decimal 4 987 = ['0', '9', '8', '7'] := by decide

/-- The signs that an offset may have. -/
inductive Zone.Sign where
  | plus
  | hyphen
  | minus
  deriving DecidableEq, Repr

namespace Zone.Sign

/-- The character of a sign; the minus sign is not in the ASCII range. -/
def char : Sign → Char
  | .plus => '+'
  | .hyphen => '-'
  | .minus => '\u2212'

/-- What the offset behind a sign is multiplied by. -/
def factor : Sign → Int
  | .plus => 1
  | .hyphen | .minus => -1

end Zone.Sign

/-- How a clock is set: to universal time, or ahead of it or behind it by less than a day. -/
inductive Zone where
  | universal (capital : Bool)
  | offset (sign : Zone.Sign) (hours : Fin 24) (minutes : Fin 60)
  deriving DecidableEq, Repr

namespace Zone

/-- The text of a zone. -/
def chars : Zone → List Char
  | .universal capital => [if capital then 'Z' else 'z']
  | .offset sign hours minutes => sign.char :: (decimal 2 hours ++ ':' :: decimal 2 minutes)

/-- How many seconds the clock is ahead. -/
def seconds : Zone → Int
  | .universal _ => 0
  | .offset sign hours minutes => sign.factor * (3600 * hours + 60 * minutes)

end Zone

/-- What the text of a moment says. No digits in the fraction stand for a second without one. -/
structure Stamp where
  date : Date
  year_lt : date.year < 10000
  divider : Char
  divider_mem : divider ∈ ['T', 't', ' ']
  hour : Nat
  hour_lt : hour < 24
  minute : Nat
  minute_lt : minute < 60
  second : Nat
  second_le : second ≤ 60
  fraction : List Char
  fraction_isDigit : ∀ c ∈ fraction, c.isDigit = true
  zone : Zone

namespace Stamp

/-- The point before a fraction is left out together with it. -/
def pointed : List Char → List Char
  | [] => []
  | c :: cs => '.' :: c :: cs

/-- The characters of a stamp. -/
def chars (s : Stamp) : List Char :=
  decimal 4 s.date.year ++ ('-' :: (decimal 2 s.date.month ++ ('-' :: (decimal 2 s.date.day ++ (s.divider ::
    (decimal 2 s.hour ++ (':' :: (decimal 2 s.minute ++ (':' :: (decimal 2 s.second ++
      (pointed s.fraction ++ s.zone.chars)))))))))))

/-- A text is that of a stamp, which may stand between blanks. -/
def Spells (s : Stamp) (text : String) : Prop :=
  ∃ before after : List Char, (∀ c ∈ before, isBlank c = true) ∧ (∀ c ∈ after, isBlank c = true) ∧
    text = .ofList (before ++ s.chars ++ after)

/-- The moment of a stamp. -/
def moment (s : Stamp) : Moment := ⟨s.date, s.hour, s.minute, s.second, s.zone.seconds⟩

end Stamp

/-! ## Digits -/

theorem length_decimal (width n : Nat) : (decimal width n).length = width := by
  induction width with
  | zero => rfl
  | succ width ih => exact congrArg (· + 1) ih

theorem isDigit_digitChar_mod (n : Nat) : (Nat.digitChar (n % 10)).isDigit = true := by
  rw [Nat.isDigit_digitChar]
  exact decide_eq_true (Nat.mod_lt n (by decide))

theorem isDigit_of_mem_decimal (width n : Nat) {c : Char} (h : c ∈ decimal width n) : c.isDigit = true := by
  induction width with
  | zero => exact absurd h List.not_mem_nil
  | succ width ih =>
    rcases List.mem_cons.mp h with rfl | h
    · exact isDigit_digitChar_mod _
    · exact ih h

theorem isBlank_of_isDigit {c : Char} (h : c.isDigit = true) : isBlank c = false := by
  obtain ⟨hlow, hhigh⟩ : 48 ≤ c.toNat ∧ c.toNat ≤ 57 := Char.isDigit_iff_toNat.mp h
  simp only [isBlank, Bool.or_eq_false_iff, Bool.and_eq_false_iff, decide_eq_false_iff_not, beq_eq_false_iff_ne]
  omega

namespace Moment

/-- A digit has the value that it is the digit of. -/
theorem digitValue_digitChar {n : Nat} (h : n < 10) : digitValue (Nat.digitChar n) = n := by
  rw [digitValue, Nat.toNat_digitChar_of_lt_ten h]
  exact Nat.add_sub_cancel_left ..

/-- A digit has a value up to nine. -/
theorem digitValue_le_nine {c : Char} (h : c.isDigit = true) : digitValue c ≤ 9 :=
  Nat.sub_le_sub_right (Char.isDigit_iff_toNat.mp h).2 48

/-- Reading the digits of a number appends them to what has been seen. -/
theorem digits_decimal (width n seen : Nat) (rest : List Char) :
    digits width seen (decimal width n ++ rest) = .ok (seen * 10 ^ width + n % 10 ^ width, rest) := by
  induction width generalizing seen with
  | zero => simp [digits, decimal, Nat.mod_one]
  | succ width ih =>
    have hlt : n / 10 ^ width % 10 < 10 := Nat.mod_lt _ (by decide)
    rw [decimal, List.cons_append, digits, if_pos (isDigit_digitChar_mod _), ih, digitValue_digitChar hlt, Nat.pow_succ,
      Nat.mod_mul]
    refine congrArg (fun m => Except.ok (m, rest)) ?_
    ring

/-- A number that fits its width is read back, and what follows it is left. -/
theorem digits_decimal_of_lt {width n : Nat} (h : n < 10 ^ width) (rest : List Char) :
    digits width 0 (decimal width n ++ rest) = .ok (n, rest) := by
  rw [digits_decimal, Nat.mod_eq_of_lt h, Nat.zero_mul, Nat.zero_add]

/-- A mark that is allowed is passed over. -/
theorem mark_cons {allowed : List Char} {c : Char} (h : c ∈ allowed) (cs : List Char) :
    mark allowed (c :: cs) = .ok cs :=
  if_pos h

/-! ## The parts of a text -/

/-- A fraction ends before the first character that is no digit. -/
theorem fraction_pointed {digits rest : List Char} (hd : ∀ c ∈ digits, c.isDigit = true) {c : Char}
    (hc : c.isDigit = false) (hp : c ≠ '.') : fraction (Stamp.pointed digits ++ c :: rest) = .ok (c :: rest) := by
  cases digits with
  | nil =>
    unfold fraction
    split
    · simp_all [Stamp.pointed]
    · simp_all [Stamp.pointed]
    · rfl
  | cons d digits =>
    have hdrop : (digits ++ c :: rest).dropWhile Char.isDigit = c :: rest := by
      rw [List.dropWhile_append_of_pos fun x hx => hd x (List.mem_cons_of_mem d hx)]
      exact List.dropWhile_cons_of_neg (by simp [hc])
    simp only [Stamp.pointed, List.cons_append, fraction, hd d List.mem_cons_self, if_true, hdrop]

/-- Two digits are read one by one. -/
theorem twoDigits_decimal (n : Nat) (rest : List Char) :
    twoDigits (decimal 2 n ++ rest) = .ok (Nat.digitChar (n / 10 % 10), Nat.digitChar (n % 10), rest) := by
  simp [decimal, twoDigits, Nat.mod_lt]

/-- Two digits have the value of the number they were written for. -/
theorem value_decimal_two {n : Nat} (h : n < 100) :
    10 * digitValue (Nat.digitChar (n / 10 % 10)) + digitValue (Nat.digitChar (n % 10)) = n := by
  rw [digitValue_digitChar (Nat.mod_lt _ (by decide)), digitValue_digitChar (Nat.mod_lt _ (by decide))]
  omega

/-- The text of a zone is read as the seconds that its clock is ahead. -/
theorem offset?_chars (zone : Zone) : offset? zone.chars = .ok (zone.seconds, []) := by
  cases zone with
  | universal capital => cases capital <;> rfl
  | offset sign hours minutes =>
    have hz : ¬(sign.char = 'Z' ∨ sign.char = 'z') := by cases sign <;> decide
    have hm : ¬ '6' ≤ Nat.digitChar (minutes / 10 % 10) := by
      have hlow : ∀ k < 6, ¬ '6' ≤ Nat.digitChar k := by decide
      exact hlow _ (by omega)
    have hlast := twoDigits_decimal minutes []
    rw [List.append_nil] at hlast
    rw [Zone.chars, offset?, if_neg hz]
    simp only [twoDigits_decimal, hlast, bind, Except.bind, if_neg hm,
      value_decimal_two (Nat.lt_trans hours.isLt (by decide)),
      value_decimal_two (Nat.lt_trans minutes.isLt (by decide))]
    cases sign <;> rfl

end Moment

namespace Zone

/-- The text of a zone begins with neither a digit nor a point. -/
theorem exists_chars_eq_cons (zone : Zone) : ∃ c cs, zone.chars = c :: cs ∧ c.isDigit = false ∧ c ≠ '.' := by
  cases zone with
  | universal capital => cases capital <;> exact ⟨_, [], rfl, by decide, by decide⟩
  | offset sign hours minutes => cases sign <;> exact ⟨_, _, rfl, by decide, by decide⟩

/-- A clock is ahead or behind by less than a day. -/
theorem natAbs_seconds_lt (zone : Zone) : zone.seconds.natAbs < 86400 := by
  cases zone with
  | universal capital => exact of_decide_eq_true rfl
  | offset sign hours minutes => cases sign <;> simp only [Zone.seconds, Zone.Sign.factor] <;> omega

end Zone

/-! ## Whole texts -/

namespace Moment

/-- The parts of a stamp are read one after another, and none of them reaches into the next. -/
theorem ofChars_chars (s : Stamp) : ofChars s.chars = .ok s.moment := by
  have hday := s.date.valid
  have hdate : Date.of? s.date.year s.date.month s.date.day = some s.date := dif_pos hday
  have hclock : ¬(24 ≤ s.hour ∨ 60 ≤ s.minute ∨ 60 < s.second) := by
    have := s.hour_lt
    have := s.minute_lt
    have := s.second_le
    omega
  have hyear (rest : List Char) : digits 4 0 (decimal 4 s.date.year ++ rest) = .ok (s.date.year, rest) :=
    digits_decimal_of_lt s.year_lt rest
  have htwo {n : Nat} (h : n < 100) (rest : List Char) : digits 2 0 (decimal 2 n ++ rest) = .ok (n, rest) :=
    digits_decimal_of_lt h rest
  have hmonth := htwo (Nat.lt_of_le_of_lt s.date.month_mem.2 (by decide))
  have hday := htwo (Nat.lt_of_le_of_lt (hday.2.trans (Date.daysInMonth_le ..)) (by decide))
  have hhour := htwo (s.hour_lt.trans (by decide))
  have hminute := htwo (s.minute_lt.trans (by decide))
  have hsecond := htwo (Nat.lt_of_le_of_lt s.second_le (by decide))
  have hmark (c : Char) (rest : List Char) : mark [c] (c :: rest) = .ok rest :=
    mark_cons (List.mem_singleton_self c) rest
  have hrest : fraction (Stamp.pointed s.fraction ++ s.zone.chars) = .ok s.zone.chars := by
    obtain ⟨c, cs, hzone, hc, hp⟩ := s.zone.exists_chars_eq_cons
    rw [hzone]
    exact fraction_pointed s.fraction_isDigit hc hp
  have hoffset : ¬86400 ≤ s.zone.seconds.natAbs := Nat.not_le_of_lt s.zone.natAbs_seconds_lt
  simp only [ofChars, Stamp.chars, bind, Except.bind, hyear, hmark, hmonth, hday, hdate, mark_cons s.divider_mem, hhour,
    hminute, hsecond, hrest, if_neg hclock, offset?_chars, if_neg hoffset]
  rfl

/-- A text has at least as many bytes as characters. -/
theorem length_le_byteLength (cs : List Char) : cs.length ≤ byteLength cs := by
  induction cs with
  | nil => exact Nat.le_refl 0
  | cons c cs ih =>
    have := c.utf8Size_pos
    simp only [List.length_cons, byteLength]
    omega

/-- A date and a time take nineteen characters. -/
theorem le_byteLength_chars (s : Stamp) : 19 ≤ byteLength s.chars := by
  refine Nat.le_trans ?_ (length_le_byteLength s.chars)
  simp only [Stamp.chars, List.length_append, List.length_cons, length_decimal]
  omega

end Moment

/-- No blanks are dropped from a text that begins with none. -/
theorem dropWhile_isBlank_of_head {cs : List Char} (h : ∀ c ∈ cs.head?, isBlank c = false) :
    cs.dropWhile isBlank = cs := by
  cases cs with
  | nil => rfl
  | cons c cs => exact List.dropWhile_cons_of_neg (by simp [h c rfl])

/-- Blanks around characters that neither begin nor end with one are what is cut off. -/
theorem trimChars_around {before after cs : List Char} (hb : ∀ c ∈ before, isBlank c = true)
    (ha : ∀ c ∈ after, isBlank c = true) (hne : cs ≠ []) (hhead : ∀ c ∈ cs.head?, isBlank c = false)
    (hlast : ∀ c ∈ cs.getLast?, isBlank c = false) : trimChars (before ++ cs ++ after) = cs := by
  have hcut : (before ++ cs ++ after).dropWhile isBlank = cs ++ after := by
    rw [List.append_assoc, List.dropWhile_append_of_pos hb]
    obtain ⟨c, cs, rfl⟩ := List.exists_cons_of_ne_nil hne
    exact dropWhile_isBlank_of_head hhead
  rw [trimChars, hcut, List.reverse_append, List.dropWhile_append_of_pos fun c hc => ha c (List.mem_reverse.mp hc),
    dropWhile_isBlank_of_head, List.reverse_reverse]
  rwa [List.head?_reverse]

namespace Stamp

/-- The text of a stamp, with no blanks around it, spells it. -/
theorem spells_chars (s : Stamp) : s.Spells (.ofList s.chars) :=
  ⟨[], [], by simp, by simp, by rw [List.nil_append, List.append_nil]⟩

/-- The text of a stamp does not begin with a blank. -/
theorem isBlank_head_chars (s : Stamp) : ∀ c ∈ s.chars.head?, isBlank c = false := by
  intro c hc
  refine isBlank_of_isDigit (isDigit_of_mem_decimal 4 s.date.year ?_)
  exact List.mem_of_mem_head? hc

theorem chars_ne_nil (s : Stamp) : s.chars ≠ [] := List.cons_ne_nil _ _

/-- The text of a stamp does not end with a blank. -/
theorem isBlank_last_chars (s : Stamp) : ∀ c ∈ s.chars.getLast?, isBlank c = false := by
  have hzone : s.chars.getLast? = s.zone.chars.getLast? := by
    obtain ⟨c, cs, h, -⟩ := s.zone.exists_chars_eq_cons
    simp [chars, h, List.getLast?_cons]
  rw [hzone]
  cases s.zone with
  | universal capital =>
    rintro c ⟨rfl⟩
    cases capital <;> decide
  | offset sign hours minutes =>
    intro c hc
    have hmem : c ∈ (decimal 2 minutes).getLast? := by simpa [Zone.chars, decimal, List.getLast?_cons] using hc
    exact isBlank_of_isDigit (isDigit_of_mem_decimal 2 minutes (List.mem_of_mem_getLast? hmem))

/-- The text of a stamp is read as its moment. -/
theorem ofText_of_spells {s : Stamp} {text : String} (h : s.Spells text) : Moment.ofText text = .ok s.moment := by
  obtain ⟨before, after, hb, ha, rfl⟩ := h
  have htrim := trimChars_around hb ha s.chars_ne_nil s.isBlank_head_chars s.isBlank_last_chars
  simp only [Moment.ofText, String.toList_ofList, htrim, if_neg (Nat.not_lt.mpr (Moment.le_byteLength_chars s)),
    Moment.ofChars_chars]

end Stamp

end WhereClause
