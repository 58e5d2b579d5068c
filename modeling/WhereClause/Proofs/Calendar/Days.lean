import Mathlib.Tactic.SplitIfs
import WhereClause.Calendar.Date

/-!
# Counting days

The day after a date is the next one of its month, or the first of the next month, or the first of the next year
(`Date.next`). From the first of January of the year 0, going on day by day leads to every date
(`Date.exists_later_first`), and each step adds one to the number of the date (`Date.number_next`). So the number of a
date, which is computed at once, is the number of days that are counted one by one (`Date.daysAfter_iff`).
-/

namespace WhereClause.Date

/-- A month has a day if it is one of the twelve. -/
theorem one_le_daysInMonth_iff {year month : Nat} : 1 ≤ daysInMonth year month ↔ 1 ≤ month ∧ month ≤ 12 := by
  unfold daysInMonth
  split
  case h_12 => split <;> omega
  case h_13 =>
    simp only [imp_false] at *
    omega
  all_goals omega

/-- No month has more than 31 days. -/
theorem daysInMonth_le (year month : Nat) : daysInMonth year month ≤ 31 := by
  unfold daysInMonth
  split
  case h_12 => split <;> omega
  all_goals omega

/-- The months are numbered from one to twelve. -/
theorem month_mem (d : Date) : 1 ≤ d.month ∧ d.month ≤ 12 :=
  one_le_daysInMonth_iff.mp (Nat.le_trans d.valid.1 d.valid.2)

/-- The day after. -/
def next (d : Date) : Date :=
  if h : d.day < daysInMonth d.year d.month then ⟨d.year, d.month, d.day + 1, Nat.succ_pos d.day, h⟩
  else if hm : d.month < 12 then
    ⟨d.year, d.month + 1, 1, Nat.le_refl 1, one_le_daysInMonth_iff.mpr ⟨Nat.succ_pos d.month, hm⟩⟩
  else ⟨d.year + 1, 1, 1, Nat.le_refl 1, one_le_daysInMonth_iff.mpr (by decide)⟩

/-- The date some days later. -/
def later (d : Date) : Nat → Date
  | 0 => d
  | n + 1 => (d.later n).next

example : later ⟨1900, 2, 27, by decide⟩ 2 = ⟨1900, 3, 1, by decide⟩ := by decide

/-- A date comes some days after another, or before it where the number is negative: counting them one by one leads from
one to the other. -/
def DaysAfter (n : Int) (d e : Date) : Prop :=
  match n with
  | .ofNat k => d.later k = e
  | .negSucc k => e.later (k + 1) = d

/-- 0000-01-01, the first date there is. -/
def first : Date := ⟨0, 1, 1, by decide⟩

/-- 1970-01-01. -/
def epoch : Date := ⟨1970, 1, 1, by decide⟩

/-! ## Numbers of dates -/

theorem number_first : first.number = -719528 := by decide +kernel

theorem number_epoch : epoch.number = 0 := by decide +kernel

/-- A month begins where the one before it ends. -/
theorem daysBeforeMonth_succ (year : Nat) {month : Nat} (h : 1 ≤ month) (h' : month < 12) :
    daysBeforeMonth year (month + 1) = daysBeforeMonth year month + daysInMonth year month := by
  obtain rfl | rfl | rfl | rfl | rfl | rfl | rfl | rfl | rfl | rfl | rfl :
      month = 1 ∨ month = 2 ∨ month = 3 ∨ month = 4 ∨ month = 5 ∨ month = 6 ∨ month = 7 ∨ month = 8 ∨ month = 9 ∨
        month = 10 ∨ month = 11 := by omega
  all_goals
    simp only [daysBeforeMonth, daysInMonth]
  split <;> rfl
  all_goals omega

/-- A year has 365 days, and a leap year has one more. -/
theorem daysBeforeYear_succ (year : Nat) :
    daysBeforeYear (year + 1) = daysBeforeYear year + 365 + if isLeapYear year then 1 else 0 := by
  have multiples (k : Nat) :
      (year + 1 + k) / (k + 1) = (year + k) / (k + 1) + if year % (k + 1) = 0 then 1 else 0 := by
    rw [Nat.add_right_comm, Nat.succ_div]
    simp only [Nat.add_assoc, Nat.dvd_iff_mod_eq_zero, Nat.add_mod_right]
  -- The subtraction in the count does not fall below zero.
  have hle : (year + 99) / 100 ≤ (year + 3) / 4 := by omega
  simp only [daysBeforeYear, isLeapYear, multiples 3, multiples 99, multiples 399, Bool.and_eq_true, Bool.or_eq_true,
    decide_eq_true_eq]
  generalize (year + 3) / 4 = fours at hle
  generalize (year + 99) / 100 = hundreds at hle
  generalize (year + 399) / 400 = fourHundreds
  split_ifs <;> omega

/-- The day after has the next number. -/
theorem number_next (d : Date) : d.next.number = d.number + 1 := by
  obtain ⟨hm, hm'⟩ := d.month_mem
  have hd := d.valid
  unfold next
  split
  · simp only [number]
    omega
  next hday =>
    split
    · have hs := daysBeforeMonth_succ d.year hm (by omega)
      simp only [number]
      omega
    next hmonth =>
      obtain h12 : d.month = 12 := by omega
      have hs := daysBeforeYear_succ d.year
      have h1 : daysBeforeMonth (d.year + 1) 1 = 0 := rfl
      have hlast : daysBeforeMonth d.year 12 = 334 + if isLeapYear d.year then 1 else 0 := rfl
      have hdays : daysInMonth d.year 12 = 31 := rfl
      rw [h12, hdays] at hd hday
      simp only [number, h1, h12]
      omega

/-- Some days later, the number is higher by as many. -/
theorem number_later (d : Date) (n : Nat) : (d.later n).number = d.number + n := by
  induction n with
  | zero => exact (Int.add_zero _).symm
  | succ n ih =>
    rw [later, number_next, ih]
    omega

/-! ## Every date is reached -/

/-- Going on day by day leads through all days of a month, through all months of a year, and through all years. -/
theorem exists_later_first (d : Date) : ∃ n, first.later n = d := by
  -- Three inductions, one inside the other: the last day of a month leads into the next month, and the last month of a
  -- year into the next year.
  have step {d e : Date} (h : ∃ n, first.later n = d) (he : d.next = e) : ∃ n, first.later n = e := by
    obtain ⟨n, rfl⟩ := h
    exact ⟨n + 1, he⟩
  have days {year month : Nat} (hm : 1 ≤ daysInMonth year month)
      (h : ∃ n, first.later n = ⟨year, month, 1, Nat.le_refl 1, hm⟩) (day : Nat)
      (hd : 1 ≤ day + 1 ∧ day + 1 ≤ daysInMonth year month) : ∃ n, first.later n = ⟨year, month, day + 1, hd⟩ := by
    induction day with
    | zero => exact h
    | succ day ih => exact step (ih ⟨Nat.succ_pos day, Nat.le_of_succ_le hd.2⟩) (dif_pos hd.2)
  have months (year : Nat) (h : ∃ n, first.later n = ⟨year, 1, 1, Nat.le_refl 1, one_le_daysInMonth_iff.mpr (by decide)⟩)
      (month : Nat) (hm : 1 ≤ daysInMonth year (month + 1)) :
      ∃ n, first.later n = ⟨year, month + 1, 1, Nat.le_refl 1, hm⟩ := by
    induction month with
    | zero => exact h
    | succ month ih =>
      have hlt : month + 1 < 12 := (one_le_daysInMonth_iff.mp hm).2
      have hm' : 1 ≤ daysInMonth year (month + 1) := one_le_daysInMonth_iff.mpr ⟨Nat.succ_pos month, Nat.le_of_lt hlt⟩
      obtain ⟨last, hl⟩ : ∃ last, daysInMonth year (month + 1) = last + 1 := Nat.exists_eq_add_of_le' hm'
      refine step (days hm' (ih hm') last ⟨Nat.succ_pos last, Nat.le_of_eq hl.symm⟩) ?_
      simp [next, hl, hlt]
  have years (year : Nat) :
      ∃ n, first.later n = ⟨year, 1, 1, Nat.le_refl 1, one_le_daysInMonth_iff.mpr (by decide)⟩ := by
    induction year with
    | zero => exact ⟨0, rfl⟩
    | succ year ih =>
      have hm : 1 ≤ daysInMonth year (11 + 1) := one_le_daysInMonth_iff.mpr (by decide)
      refine step (days hm (months year ih 11 hm) 30 ⟨Nat.succ_pos 30, Nat.le_refl 31⟩) ?_
      simp [next, daysInMonth]
  obtain ⟨year, month, day, hd⟩ := d
  have hm : 1 ≤ daysInMonth year month := Nat.le_trans hd.1 hd.2
  obtain ⟨month, rfl⟩ : ∃ m, month = m + 1 := Nat.exists_eq_add_of_le' (one_le_daysInMonth_iff.mp hm).1
  obtain ⟨day, rfl⟩ : ∃ k, day = k + 1 := Nat.exists_eq_add_of_le' hd.1
  exact days hm (months year (years year) month hm) day hd

/-- Two dates with one number are the same. -/
theorem number_inj {d e : Date} (h : d.number = e.number) : d = e := by
  obtain ⟨m, rfl⟩ := exists_later_first d
  obtain ⟨n, rfl⟩ := exists_later_first e
  rw [number_later, number_later] at h
  obtain rfl : m = n := by omega
  rfl

/-- The days between two dates, counted one by one, are the difference of their numbers. -/
theorem daysAfter_iff {n : Int} {d e : Date} : DaysAfter n d e ↔ e.number = d.number + n := by
  cases n with
  | ofNat k =>
    constructor
    · rintro rfl
      exact number_later d k
    · intro h
      exact number_inj ((number_later d k).trans h.symm)
  | negSucc k =>
    constructor
    · rintro rfl
      rw [number_later]
      omega
    · intro h
      refine number_inj ?_
      rw [number_later]
      omega

/-! ## Dates with a year of four digits -/

/-- 9999-12-31, the last date whose year has four digits. -/
def last : Date := ⟨9999, 12, 31, by decide⟩

theorem number_last : last.number = 2932896 := by decide +kernel

/-- No date comes before the first one. -/
theorem number_first_le (d : Date) : first.number ≤ d.number := by
  obtain ⟨n, rfl⟩ := exists_later_first d
  rw [number_later]
  omega

/-- Years do not go back. -/
theorem year_le_later (d : Date) (n : Nat) : d.year ≤ (d.later n).year := by
  induction n with
  | zero => exact Nat.le_refl _
  | succ n ih =>
    refine Nat.le_trans ih ?_
    rw [later, next]
    split
    · exact Nat.le_refl _
    · split
      · exact Nat.le_refl _
      · exact Nat.le_succ _

/-- The years never go back, so the dates up to the last one are those of its year and the years before. -/
theorem number_le_last_iff {d : Date} : d.number ≤ last.number ↔ d.year < 10000 := by
  constructor
  · intro h
    have hl : d.later (last.number - d.number).toNat = last := by
      refine number_inj ?_
      rw [number_later]
      omega
    have hy := d.year_le_later (last.number - d.number).toNat
    rw [hl] at hy
    exact Nat.lt_succ_of_le hy
  · intro h
    refine Int.not_lt.mp fun hn => ?_
    have hl : last.next.later (d.number - last.number - 1).toNat = d := by
      refine number_inj ?_
      rw [number_later, number_next]
      omega
    have hy := last.next.year_le_later (d.number - last.number - 1).toNat
    rw [hl] at hy
    exact Nat.not_le_of_lt h hy

end WhereClause.Date
