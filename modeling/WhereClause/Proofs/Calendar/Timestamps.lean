import Mathlib.Data.Rat.Floor
import Mathlib.Tactic.Linarith
import WhereClause.Proofs.Calendar.Stamp

/-!
# Timestamps and instants

A stamp names an instant, which may lie between two seconds (`Stamp.Names`): the days since 1970-01-01, counted one by
one, the time of day, and the fraction, less what the clock is ahead. The number that its text is parsed as is the second
in which the instant lies, so the numbers of two texts are in the order of these seconds, and a second that is written
down on any clock is read again (`timestamps_count_seconds`).
-/

namespace WhereClause

namespace Stamp

/-- The part of a second that the digits after a point name. -/
def fractionValue : List Char → ℚ
  | [] => 0
  | c :: cs => (Moment.digitValue c + fractionValue cs) / 10

/-- A stamp names an instant, in seconds since 1970-01-01T00:00:00Z. A sixtieth second is the one after the
fifty-ninth. -/
def Names (s : Stamp) (x : ℚ) : Prop :=
  ∃ days : Int, Date.DaysAfter days Date.epoch s.date ∧
    x = 86400 * days + 3600 * s.hour + 60 * s.minute + s.second + fractionValue s.fraction - s.zone.seconds

/-- What is met on the way when the parts of a stamp are summed up from left to right. -/
def sums (s : Stamp) (days : Int) : List Int :=
  [86400 * days, 86400 * days + 3600 * s.hour, 86400 * days + 3600 * s.hour + 60 * s.minute,
    86400 * days + 3600 * s.hour + 60 * s.minute + min s.second 59,
    86400 * days + 3600 * s.hour + 60 * s.minute + min s.second 59 - s.zone.seconds]

/-- A clock that shows a number of seconds since its 1970-01-01T00:00:00 shows a year of four digits. -/
def FourDigitYear (clock : Int) : Prop :=
  86400 * Date.first.number ≤ clock ∧ clock < 86400 * (Date.last.number + 1)

example (clock : Int) : FourDigitYear clock ↔ -62167219200 ≤ clock ∧ clock < 253402300800 := by
  rw [FourDigitYear, Date.number_first, Date.number_last]
  rfl

/-- The stamp of a second on a clock: the days are those from the first date on, and the rest is the time of day. -/
def ofSeconds (n : Int) (zone : Zone) (h : FourDigitYear (n + zone.seconds)) : Stamp where
  date := Date.first.later ((n + zone.seconds) / 86400 - Date.first.number).toNat
  year_lt := by
    rw [← Date.number_le_last_iff, Date.number_later]
    have := h.1
    have := h.2
    omega
  divider := 'T'
  divider_mem := List.mem_cons_self
  hour := ((n + zone.seconds) % 86400 / 3600).toNat
  hour_lt := by omega
  minute := ((n + zone.seconds) % 3600 / 60).toNat
  minute_lt := by omega
  second := ((n + zone.seconds) % 60).toNat
  second_le := by omega
  fraction := []
  fraction_isDigit := by simp
  zone := zone

/-! ## The number of a stamp -/

/-- The number of a date is how many days after the epoch it is. -/
theorem daysAfter_epoch_iff {days : Int} {d : Date} : Date.DaysAfter days Date.epoch d ↔ d.number = days := by
  rw [Date.daysAfter_iff, Date.number_epoch, Int.zero_add]

/-- Nothing on the way to the number of a stamp leaves the range of 64 bits. -/
theorem sums_range (s : Stamp) {x : Int} (hx : x ∈ s.sums s.date.number) : -2 ^ 63 ≤ x ∧ x < 2 ^ 63 := by
  have hfirst := Date.number_first_le s.date
  have hlast := Date.number_le_last_iff.mpr s.year_lt
  have := s.hour_lt
  have := s.minute_lt
  have := s.zone.natAbs_seconds_lt
  rw [Date.number_first] at hfirst
  rw [Date.number_last] at hlast
  simp only [sums, List.mem_cons, List.not_mem_nil, or_false] at hx
  rcases hx with rfl | rfl | rfl | rfl | rfl <;> omega

/-- A text that spells a stamp is parsed to the seconds of its moment. -/
theorem parseTimestamp_of_spells {s : Stamp} {text : String} (h : s.Spells text) :
    ∃ n, parseTimestamp text = .ok n ∧ n.toInt = s.moment.seconds := by
  have hrange := s.sums_range (x := s.moment.seconds) (by simp [sums, Moment.seconds, moment])
  refine ⟨.ofInt s.moment.seconds, ?_, Int64.toInt_ofInt_of_le hrange.1 hrange.2⟩
  rw [parseTimestamp, ofText_of_spells h]

/-- The stamp of some seconds in a zone is a moment of as many seconds. -/
theorem seconds_ofSeconds (n : Int) (zone : Zone) (h : FourDigitYear (n + zone.seconds)) :
    (ofSeconds n zone h).moment.seconds = n := by
  have hfirst := h.1
  simp only [moment, Moment.seconds, ofSeconds, Date.number_later]
  omega

/-! ## Instants -/

/-- The digits behind a point are worth less than one. -/
theorem fractionValue_range {digits : List Char} (h : ∀ c ∈ digits, c.isDigit = true) :
    0 ≤ fractionValue digits ∧ fractionValue digits < 1 := by
  induction digits with
  | nil => exact ⟨le_refl 0, one_pos⟩
  | cons c cs ih =>
    obtain ⟨hlow, hhigh⟩ := ih fun d hd => h d (List.mem_cons_of_mem c hd)
    have hdigit : (Moment.digitValue c : ℚ) ≤ 9 := by
      exact_mod_cast Moment.digitValue_le_nine (h c List.mem_cons_self)
    have hnonneg : (0 : ℚ) ≤ Moment.digitValue c := Nat.cast_nonneg _
    simp only [fractionValue]
    constructor <;> linarith

/-- Without a sixtieth second, the number of a stamp is the second in which its instant lies. -/
theorem floor_of_names {s : Stamp} {x : ℚ} (h : s.Names x) (hs : s.second < 60) : ⌊x⌋ = s.moment.seconds := by
  obtain ⟨days, hdays, rfl⟩ := h
  -- The fraction is added on the local clock, and taking off whole seconds for the zone leaves it as it is.
  obtain ⟨hlow, hhigh⟩ := fractionValue_range s.fraction_isDigit
  have hsecond : min s.second 59 = s.second := by omega
  rw [Int.floor_eq_iff, Moment.seconds, moment, daysAfter_epoch_iff.mp hdays]
  push_cast [hsecond]
  constructor <;> linarith

end Stamp

/-- The text of a timestamp, with or without blanks around it, is parsed as the days since 1970-01-01, counted one by
one, and the time of day on a clock that is set to universal time; a sixtieth second counts as the fifty-ninth, and no
sum on the way leaves the range of 64 bits. What is written for a second on a clock is parsed as that second. Without a
sixtieth second, the numbers of two texts are equal, or in order, exactly if the seconds are in which their instants
lie. -/
theorem timestamps_count_seconds :
    (∀ (s : Stamp) (text : String), s.Spells text →
      ∃ (days : Int) (n : Int64), (∀ k, Date.DaysAfter k Date.epoch s.date ↔ k = days) ∧
        parseTimestamp text = .ok n ∧
        n.toInt = 86400 * days + 3600 * s.hour + 60 * s.minute + min s.second 59 - s.zone.seconds ∧
        ∀ x ∈ s.sums days, -2 ^ 63 ≤ x ∧ x < 2 ^ 63) ∧
    (∀ (n : Int) (zone : Zone) (h : Stamp.FourDigitYear (n + zone.seconds)) (text : String),
      (Stamp.ofSeconds n zone h).Spells text → ∃ m : Int64, parseTimestamp text = .ok m ∧ m.toInt = n) ∧
    ∀ (s t : Stamp) (text text' : String) (x y : ℚ), s.Spells text → t.Spells text' → s.second < 60 → t.second < 60 →
      s.Names x → t.Names y → ∃ m n : Int64, parseTimestamp text = .ok m ∧ parseTimestamp text' = .ok n ∧
        (m = n ↔ ⌊x⌋ = ⌊y⌋) ∧ (m < n ↔ ⌊x⌋ < ⌊y⌋) := by
  refine ⟨fun s text h => ?_, fun n zone h text ht => ?_, fun s t text text' x y hs ht hs60 ht60 hx hy => ?_⟩
  · obtain ⟨n, hn, hseconds⟩ := Stamp.parseTimestamp_of_spells h
    exact ⟨s.date.number, n, fun k => Stamp.daysAfter_epoch_iff.trans eq_comm, hn, hseconds, fun x => s.sums_range⟩
  · obtain ⟨m, hm, hseconds⟩ := Stamp.parseTimestamp_of_spells ht
    exact ⟨m, hm, hseconds.trans (Stamp.seconds_ofSeconds n zone h)⟩
  · obtain ⟨m, hm, hm'⟩ := Stamp.parseTimestamp_of_spells hs
    obtain ⟨n, hn, hn'⟩ := Stamp.parseTimestamp_of_spells ht
    refine ⟨m, n, hm, hn, ?_, ?_⟩
    · rw [← Int64.toInt_inj, hm', hn', Stamp.floor_of_names hx hs60, Stamp.floor_of_names hy ht60]
    · rw [Int64.lt_iff_toInt_lt, hm', hn', Stamp.floor_of_names hx hs60, Stamp.floor_of_names hy ht60]

/-- Five seconds past 15:04, seven hours ahead of universal time. -/
def afternoon : Stamp where
  date := ⟨2006, 1, 2, by decide⟩
  year_lt := by decide
  divider := 'T'
  divider_mem := by decide
  hour := 15
  hour_lt := by decide
  minute := 4
  minute_lt := by decide
  second := 5
  second_le := by decide
  fraction := []
  fraction_isDigit := by simp
  zone := .offset .plus 7 0

/-- Three quarters of a second after it, by universal time. -/
def morning : Stamp :=
  { afternoon with
    divider := ' '
    divider_mem := by decide
    hour := 8
    hour_lt := by decide
    fraction := ['7', '5']
    fraction_isDigit := by simp
    zone := .universal true }

/-- The text of the afternoon, with an offset. -/
theorem spells_afternoon : afternoon.Spells "2006-01-02T15:04:05+07:00" := ⟨[], [], by simp, by simp, by decide⟩

/-- The text of the morning, with a blank before it and a fraction. -/
theorem spells_morning : morning.Spells " 2006-01-02 08:04:05.75Z" :=
  ⟨[' '], [], List.forall_mem_singleton.mpr rfl, by simp, by decide⟩

/-- The day of the afternoon, counted from the epoch. -/
theorem daysAfter_afternoon : Date.DaysAfter 13150 Date.epoch afternoon.date :=
  Stamp.daysAfter_epoch_iff.mpr (by decide +kernel)

/-- The instant of the afternoon. -/
theorem names_afternoon : afternoon.Names 1136189045 := by
  refine ⟨13150, daysAfter_afternoon, ?_⟩
  have hzone : afternoon.zone.seconds = 25200 := by decide
  norm_num [hzone]
  norm_num [afternoon, Stamp.fractionValue]

/-- The instant of the morning, three quarters of a second later. -/
theorem names_morning : morning.Names 1136189045.75 := by
  refine ⟨13150, daysAfter_afternoon, ?_⟩
  have hfraction : Stamp.fractionValue morning.fraction = 0.75 := by
    norm_num [morning, Stamp.fractionValue, show Moment.digitValue '7' = 7 by decide,
      show Moment.digitValue '5' = 5 by decide]
  norm_num [hfraction]
  norm_num [morning, afternoon, Zone.seconds]

/-- An afternoon at an offset: its seconds; the epoch written half an hour and five hours behind; and a morning that
falls into the same second as the afternoon. -/
theorem timestamps_count_seconds_afternoon :
    (∃ (days : Int) (n : Int64), (∀ k, Date.DaysAfter k Date.epoch afternoon.date ↔ k = days) ∧
      parseTimestamp "2006-01-02T15:04:05+07:00" = .ok n ∧ n.toInt = 86400 * days + 54245 - 25200) ∧
    (∃ (h : Stamp.FourDigitYear (0 + Zone.seconds (.offset .minus 5 30))) (m : Int64),
      parseTimestamp (.ofList (Stamp.ofSeconds 0 (.offset .minus 5 30) h).chars) = .ok m ∧ m.toInt = 0) ∧
    ∃ m n : Int64, parseTimestamp "2006-01-02T15:04:05+07:00" = .ok m ∧
      parseTimestamp " 2006-01-02 08:04:05.75Z" = .ok n ∧
      (m = n ↔ ⌊(1136189045 : ℚ)⌋ = ⌊(1136189045.75 : ℚ)⌋) := by
  refine ⟨?_, ?_, ?_⟩
  · obtain ⟨days, n, hdays, hn, hvalue, -⟩ := timestamps_count_seconds.1 afternoon _ spells_afternoon
    refine ⟨days, n, hdays, hn, ?_⟩
    have hzone : afternoon.zone.seconds = 25200 := by decide
    have hclock : (3600 * afternoon.hour + 60 * afternoon.minute + min afternoon.second 59 : Int) = 54245 := by decide
    omega
  · have h : Stamp.FourDigitYear (0 + Zone.seconds (.offset .minus 5 30)) := by
      constructor <;> decide +kernel
    exact ⟨h, timestamps_count_seconds.2.1 0 _ h _ (Stamp.spells_chars _)⟩
  · obtain ⟨m, n, hm, hn, heq, -⟩ := timestamps_count_seconds.2.2 afternoon morning _ _ _ _ spells_afternoon
      spells_morning (by decide) (by decide) names_afternoon names_morning
    exact ⟨m, n, hm, hn, heq⟩

end WhereClause
