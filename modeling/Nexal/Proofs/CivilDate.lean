import Mathlib.Tactic.IntervalCases
import Nexal.Lib.Gregorian
import Nexal.Spec.ContainerBackend

/-! `days_to_ymd` counts the days of the proleptic Gregorian calendar: years begin in March for it, so that a leap day is
the last day of its year, and every 400 of them make an era. -/

namespace Nexal.CivilDate

open Gregorian IsoNow

/-! Years that begin on the first of March; the year `Y` ends with the February of `Y + 1` -/

/-- Days from the March of the year 0 to that of `Y`. -/
def start (Y : ℤ) : ℤ := 365 * Y + Y / 4 - Y / 100 + Y / 400

theorem start_succ (Y : ℤ) : start (Y + 1) = start Y + 365 + if IsLeap (Y + 1) then 1 else 0 := by
  unfold start IsLeap
  split_ifs <;> omega

theorem start_lt_succ (Y : ℤ) : start Y < start (Y + 1) := by
  rw [start_succ]
  split_ifs <;> omega

theorem start_lt_iff {y y' : ℤ} : start y < start y' ↔ y < y' := (strictMono_int_of_lt_succ start_lt_succ).lt_iff_lt

def monthStart (mp : ℕ) : ℕ := (153 * mp + 2) / 5

def month (mp : ℕ) : ℕ := if mp < 10 then mp + 3 else mp - 9

def year (Y : ℤ) (mp : ℕ) : ℤ := if month mp ≤ 2 then Y + 1 else Y

def ofMarch (Y : ℤ) (doy : ℕ) : Ymd :=
  let mp := (5 * doy + 2) / 153
  ⟨year Y mp, month mp, doy - monthStart mp + 1⟩

theorem ofMarch_of_month {Y : ℤ} {doy mp : ℕ} (h : (5 * doy + 2) / 153 = mp) :
    ofMarch Y doy = ⟨year Y mp, month mp, doy - monthStart mp + 1⟩ := by
  rw [← h]
  rfl

theorem month_at {doy mp : ℕ} (hlo : monthStart mp ≤ doy) (hhi : doy < monthStart (mp + 1)) :
    (5 * doy + 2) / 153 = mp := by
  unfold monthStart at hlo hhi
  omega

theorem monthStart_at (doy : ℕ) :
    monthStart ((5 * doy + 2) / 153) ≤ doy ∧ doy < monthStart ((5 * doy + 2) / 153 + 1) := by
  unfold monthStart
  omega

/-- The months from March to January have the lengths that the line through them gives. -/
theorem monthLength_month {mp : ℕ} (h : mp < 11) (y : ℤ) :
    monthLength y (month mp) = monthStart (mp + 1) - monthStart mp := by
  interval_cases mp <;> rfl

theorem monthLength_february (Y : ℤ) : monthLength (year Y 11) (month 11) = if IsLeap (Y + 1) then 29 else 28 := rfl

def yearLength (Y : ℤ) : ℕ := if IsLeap (Y + 1) then 366 else 365

theorem start_add_yearLength (Y : ℤ) : start Y + yearLength Y = start (Y + 1) := by
  rw [start_succ, yearLength]
  split_ifs <;> simp [Int.add_assoc]

/-- A month of it ends where the next begins, the last with the year. -/
theorem monthStart_add_length {Y : ℤ} {mp : ℕ} (h : mp ≤ 11) :
    monthStart mp + monthLength (year Y mp) (month mp) = if mp < 11 then monthStart (mp + 1) else yearLength Y := by
  split_ifs with hlast
  · rw [monthLength_month hlast]
    unfold monthStart
    omega
  · obtain rfl : mp = 11 := by omega
    rw [monthLength_february, yearLength, monthStart]
    split_ifs <;> rfl

variable {Y z n : ℤ} {doy : ℕ}

theorem month_le_eleven (h : doy < yearLength Y) : (5 * doy + 2) / 153 ≤ 11 := by
  unfold yearLength at h
  split_ifs at h <;> omega

theorem ofMarch_valid (h : doy < yearLength Y) : (ofMarch Y doy).Valid := by
  have hle := month_le_eleven h
  obtain ⟨hlo, hhi⟩ := monthStart_at doy
  have hlen := monthStart_add_length (Y := Y) hle
  have hmonth : 1 ≤ month ((5 * doy + 2) / 153) ∧ month ((5 * doy + 2) / 153) ≤ 12 := by
    unfold month
    split_ifs <;> omega
  refine ⟨hmonth.1, hmonth.2, by simp [ofMarch], ?_⟩
  simp only [ofMarch]
  split_ifs at hlen with hlast <;> omega

theorem month_succ {mp : ℕ} (h : mp < 11) (Y : ℤ) :
    (month mp < 12 → year Y (mp + 1) = year Y mp ∧ month (mp + 1) = month mp + 1) ∧
      (¬month mp < 12 → year Y (mp + 1) = year Y mp + 1 ∧ month (mp + 1) = 1) := by
  interval_cases mp <;> simp [month, year]

/-- A day later within the year. -/
theorem ofMarch_next (h : doy + 1 < yearLength Y) : (ofMarch Y doy).next = ofMarch Y (doy + 1) := by
  have hle := month_le_eleven (Nat.lt_of_succ_lt h)
  obtain ⟨hlo, hhi⟩ := monthStart_at doy
  have hlen := monthStart_add_length (Y := Y) hle
  generalize hmp : (5 * doy + 2) / 153 = mp at *
  rw [ofMarch_of_month hmp, Ymd.next]
  simp only
  by_cases hsame : doy + 1 < monthStart mp + monthLength (year Y mp) (month mp)
  · have hmp' : (5 * (doy + 1) + 2) / 153 = mp := by
      refine month_at (by omega) ?_
      split_ifs at hlen with hlast
      · omega
      · obtain rfl : mp = 11 := by omega
        have hend : monthStart (11 + 1) = 367 := rfl
        unfold yearLength at h
        split_ifs at h <;> omega
    rw [if_pos (by omega), ofMarch_of_month hmp', Nat.sub_add_comm hlo]
  · have hlast : mp < 11 := by
      by_contra hlast
      rw [if_neg hlast] at hlen
      omega
    rw [if_pos hlast] at hlen
    have hfirst : doy + 1 = monthStart (mp + 1) := by omega
    have hmp' : (5 * (doy + 1) + 2) / 153 = mp + 1 := by
      refine month_at hfirst.ge ?_
      rw [hfirst]
      unfold monthStart
      omega
    obtain ⟨hwithin, hdecember⟩ := month_succ hlast Y
    rw [if_neg (by omega), ofMarch_of_month hmp', hfirst, Nat.sub_self]
    split_ifs with hdec
    · rw [(hwithin hdec).1, (hwithin hdec).2]
    · rw [(hdecember hdec).1, (hdecember hdec).2]

/-- The last of February is followed by the first of March. -/
theorem ofMarch_next_year (h : doy + 1 = yearLength Y) : (ofMarch Y doy).next = ofMarch (Y + 1) 0 := by
  have hmp : (5 * doy + 2) / 153 = 11 := by
    unfold yearLength at h
    split_ifs at h <;> omega
  have hfeb := monthLength_february Y
  have hday : ¬doy - monthStart 11 + 1 < monthLength (year Y 11) (month 11) := by
    rw [hfeb]
    unfold yearLength at h
    unfold monthStart
    split_ifs at h ⊢ <;> omega
  rw [ofMarch_of_month hmp, Ymd.next]
  simp only
  rw [if_neg hday, if_pos (by decide)]
  rfl

/-! The year of a day -/

def yearOfEra (doe : ℤ) : ℤ := (doe - doe / 1460 + doe / 36524 - doe / 146096) / 365

theorem yearOfEra_spec {doe : ℤ} (h0 : 0 ≤ doe) (h1 : doe < 146097) :
    0 ≤ yearOfEra doe ∧ yearOfEra doe < 400 ∧ start (yearOfEra doe) ≤ doe ∧ doe < start (yearOfEra doe + 1) := by
  rcases eq_or_ne doe 146096 with rfl | hlast
  · decide
  have hera : doe / 146096 = 0 := by omega
  unfold start
  set yoe := yearOfEra doe with hyoe
  rw [yearOfEra, hera, Int.sub_zero] at hyoe
  -- as many leap years and centuries have gone by as days of four and of a hundred years
  have hcentury : yoe / 100 = doe / 36524 := by omega
  have hle : yoe / 4 ≤ doe / 1460 := by omega
  have hge : doe / 1460 ≤ (yoe + 1) / 4 := by omega
  have hnext : yoe + 1 = 100 * (doe / 36524 + 1) ∨ (yoe + 1) / 100 = doe / 36524 := by omega
  refine ⟨by omega, by omega, by omega, ?_⟩
  rcases hnext with hnext | hnext <;> omega

def yearOf (z : ℤ) : ℤ := yearOfEra (z % 146097) + 400 * (z / 146097)

theorem start_era (yoe era : ℤ) : start (yoe + 400 * era) = start yoe + 146097 * era := by
  unfold start
  omega

theorem yearOf_spec (z : ℤ) : start (yearOf z) ≤ z ∧ z < start (yearOf z + 1) := by
  obtain ⟨-, -, hlo, hhi⟩ := yearOfEra_spec (Int.emod_nonneg z (by decide)) (Int.emod_lt_of_pos z (by decide))
  have hnext : yearOf z + 1 = yearOfEra (z % 146097) + 1 + 400 * (z / 146097) := by rw [yearOf, Int.add_right_comm]
  rw [hnext, start_era, yearOf, start_era]
  omega

theorem yearOf_unique (hlo : start Y ≤ z) (hhi : z < start (Y + 1)) : yearOf z = Y := by
  obtain ⟨hlo', hhi'⟩ := yearOf_spec z
  have hle := start_lt_iff.mp (hlo.trans_lt hhi')
  have hge := start_lt_iff.mp (hlo'.trans_lt hhi)
  omega

def dayOfYear (z : ℤ) : ℕ := (z - start (yearOf z)).toNat

theorem dayOfYear_lt (z : ℤ) : dayOfYear z < yearLength (yearOf z) := by
  obtain ⟨hlo, hhi⟩ := yearOf_spec z
  rw [← start_add_yearLength] at hhi
  unfold dayOfYear
  omega

/-- The date of a day that is counted from the March of the year 0. -/
def civil (z : ℤ) : Ymd := ofMarch (yearOf z) (dayOfYear z)

theorem civil_succ (z : ℤ) : civil (z + 1) = (civil z).next := by
  obtain ⟨hlo, hhi⟩ := yearOf_spec z
  have hlen := start_add_yearLength (yearOf z)
  have hday : (dayOfYear z : ℤ) = z - start (yearOf z) := by
    unfold dayOfYear
    omega
  rcases Nat.lt_or_ge (dayOfYear z + 1) (yearLength (yearOf z)) with hin | hout
  · have hsame : yearOf (z + 1) = yearOf z := yearOf_unique (by omega) (by omega)
    have hday' : dayOfYear (z + 1) = dayOfYear z + 1 := by
      rw [dayOfYear, hsame]
      omega
    rw [civil, civil, hsame, hday', ofMarch_next hin]
  · have hlast : dayOfYear z + 1 = yearLength (yearOf z) := Nat.le_antisymm (dayOfYear_lt z) hout
    have hnew : z + 1 = start (yearOf z + 1) := by omega
    have hsame : yearOf (z + 1) = yearOf z + 1 := yearOf_unique hnew.ge (hnew ▸ start_lt_succ _)
    have hday' : dayOfYear (z + 1) = 0 := by
      rw [dayOfYear, hsame]
      omega
    rw [civil, civil, hsame, hday', ofMarch_next_year hlast]

theorem civil_valid (z : ℤ) : (civil z).Valid := ofMarch_valid (dayOfYear_lt z)

def epoch : Date := ⟨⟨1970, 1, 1⟩, by decide, by decide, by decide, by decide⟩

/-- The first of March of the year 0 is 719468 days before it. -/
theorem civil_eq (days : ℤ) : civil (days + 719468) = (daysAfter epoch days).1 := by
  refine eq_daysAfter (f := fun n => civil (n + 719468)) (fun n => civil_valid _) (by decide) (fun n => ?_) days
  rw [Int.add_right_comm, civil_succ]

/-! The code -/

theorem i64_of (h : -2 ^ 63 ≤ n ∧ n < 2 ^ 63) : i64 n = some n := if_pos h

theorem u64Add_of {a b : ℕ} (h : a + b < 2 ^ 64) : u64Add a b = some (a + b) := if_pos h

theorem u64Sub_of {a b : ℕ} (h : b ≤ a) : u64Sub a b = some (a - b) := if_pos h

theorem u64Mul_of {a b : ℕ} (h : a * b < 2 ^ 64) : u64Mul a b = some (a * b) := if_pos h

/-- Rounding towards zero, of a dividend moved down when negative, is rounding down. -/
theorem tdiv_floored (z : ℤ) : (if 0 ≤ z then z else z - 146096).tdiv 146097 = z / 146097 := by
  split_ifs with hz
  · exact Int.tdiv_eq_ediv_of_nonneg hz
  · have hneg : (z - 146096).tdiv 146097 = -(-(z - 146096) / 146097) := by
      rw [← Int.tdiv_eq_ediv_of_nonneg (by omega), Int.neg_tdiv, Int.neg_neg]
    rw [hneg]
    omega

/-- The day of an era and the year it is in, as the code has them. -/
theorem yearOfEra_eq {doe : ℕ} (h : doe < 146097) :
    (((doe - doe / 1460 + doe / 36524 - doe / 146096) / 365 : ℕ) : ℤ) = yearOfEra doe := by
  unfold yearOfEra
  omega

theorem bind_of {α β : Type} {x : Option α} {f : α → Option β} {a : α} {r : Option β} (hx : x = some a)
    (hr : f a = r) :
    (x >>= f) = r := by
  rw [hx, ← hr]
  rfl

theorem asI64_of {a : ℕ} (h : a < 2 ^ 63) : asI64 a = a := by
  unfold asI64
  exact Int.bmod_eq_of_le (by omega) (by omega)

theorem asU32_of {a : ℕ} (h : a < 2 ^ 32) : asU32 a = a := Nat.mod_eq_of_lt h

/-- Line by line, with the day's era and the year in it. -/
theorem daysToYmd_era {days era : ℤ} {doe yoe doy : ℕ} (hdays : -2 ^ 62 ≤ days ∧ days < 2 ^ 62)
    (hera : days + 719468 = 146097 * era + doe) (hdoe : doe < 146097)
    (hyoe : (doe - doe / 1460 + doe / 36524 - doe / 146096) / 365 = yoe) (hyear : yoe < 400)
    (hdoy : 365 * yoe + yoe / 4 - yoe / 100 + doy = doe) (hday : doy ≤ 365) :
    daysToYmd days = some (asI32 (ofMarch (yoe + era * 400) doy).year, (ofMarch (yoe + era * 400) doy).month,
      (ofMarch (yoe + era * 400) doy).day) := by
  have hfloor : (days + 719468) / 146097 = era := by omega
  have hasU64 : asU64 doe = doe := by
    unfold asU64
    omega
  refine bind_of (i64_of (n := days + 719468) (by omega)) ?_
  refine bind_of (a := if 0 ≤ days + 719468 then days + 719468 else days + 719468 - 146096) ?_ ?_
  · split_ifs
    · rfl
    · exact i64_of (by omega)
  simp only [tdiv_floored, hfloor]
  refine bind_of (i64_of (n := era * 146097) (by omega)) ?_
  refine bind_of ((i64_of (by omega)).trans (congrArg some (show _ = (doe : ℤ) by omega))) ?_
  simp only [hasU64]
  refine bind_of (u64Sub_of (Nat.div_le_self _ _)) ?_
  refine bind_of (u64Add_of (by omega)) ?_
  refine bind_of (u64Sub_of (by omega)) ?_
  simp only [hyoe]
  refine bind_of (i64_of (n := era * 400) (by omega)) ?_
  rw [asI64_of (by omega)]
  refine bind_of (i64_of (n := yoe + era * 400) (by omega)) ?_
  refine bind_of (u64Mul_of (by omega)) ?_
  refine bind_of (u64Add_of (by omega)) ?_
  refine bind_of (u64Sub_of (by omega)) ?_
  refine bind_of ((u64Sub_of (by omega)).trans (congrArg some (show _ = doy by omega))) ?_
  refine bind_of (u64Mul_of (by omega)) ?_
  refine bind_of (u64Add_of (by omega)) ?_
  obtain ⟨hlo, -⟩ := monthStart_at doy
  have hmp : (5 * doy + 2) / 153 ≤ 11 := by omega
  generalize hmonth : (5 * doy + 2) / 153 = mp at *
  refine bind_of (u64Mul_of (by omega)) ?_
  refine bind_of (u64Add_of (by omega)) ?_
  refine bind_of (u64Sub_of hlo) ?_
  refine bind_of (u64Add_of (by omega)) ?_
  refine bind_of (a := month mp) ?_ ?_
  · unfold month
    split_ifs
    · exact u64Add_of (by omega)
    · exact u64Sub_of (by omega)
  refine bind_of (a := year (yoe + era * 400) mp) ?_ ?_
  · unfold year
    split_ifs
    · exact i64_of (by omega)
    · rfl
  have hm : month mp < 2 ^ 32 := by
    unfold month
    split_ifs <;> omega
  rw [asU32_of hm, asU32_of (by omega), ofMarch_of_month hmonth]
  rfl

theorem asI32_of {y : ℤ} (h : -2 ^ 31 ≤ y ∧ y < 2 ^ 31) : asI32 y = y :=
  Int.bmod_eq_of_le (by omega) (by omega)

/-- The year of a date is that from March, or the next. -/
theorem year_near (z : ℤ) : yearOf z ≤ (civil z).year ∧ (civil z).year ≤ yearOf z + 1 := by
  simp only [civil, ofMarch, year]
  split_ifs <;> omega

theorem daysToYmd_civil {days : ℤ} (h : -2 ^ 62 ≤ days ∧ days < 2 ^ 62) :
    daysToYmd days = some (asI32 (civil (days + 719468)).year, (civil (days + 719468)).month,
      (civil (days + 719468)).day) := by
  have hlt := dayOfYear_lt (days + 719468)
  have hspec := (yearOf_spec (days + 719468)).1
  rw [civil]
  set z := days + 719468 with hz
  have hdoe0 := Int.emod_nonneg z (show (146097 : ℤ) ≠ 0 by decide)
  have hdoe1 := Int.emod_lt_of_pos z (show (0 : ℤ) < 146097 by decide)
  obtain ⟨doe, hdoe⟩ := Int.eq_ofNat_of_zero_le hdoe0
  obtain ⟨hyoe0, hyoe1, hstart, -⟩ := yearOfEra_spec hdoe0 hdoe1
  obtain ⟨yoe, hyoe⟩ := Int.eq_ofNat_of_zero_le hyoe0
  have hyear : yearOf z = yoe + z / 146097 * 400 := by
    rw [yearOf, hyoe]
    omega
  have hday : (dayOfYear z : ℤ) = z - start (yearOf z) := by
    unfold dayOfYear
    omega
  rw [hyear, Int.mul_comm, start_era] at hday
  rw [hyoe] at hstart hyoe1
  unfold start at hday hstart
  rw [hyear]
  have hera : z = 146097 * (z / 146097) + doe := by omega
  refine daysToYmd_era h hera (by omega) ?_ (by omega) (by omega) ?_
  · have heq := yearOfEra_eq (show doe < 146097 by omega)
    rw [← hdoe, hyoe] at heq
    exact Int.ofNat.inj heq
  · unfold yearLength at hlt
    split_ifs at hlt <;> omega

theorem range_of_year {days : ℤ}
    (h : -2 ^ 31 ≤ (civil (days + 719468)).year ∧ (civil (days + 719468)).year < 2 ^ 31) :
    -2 ^ 62 ≤ days ∧ days < 2 ^ 62 := by
  obtain ⟨hlo, hhi⟩ := yearOf_spec (days + 719468)
  have hnear := year_near (days + 719468)
  unfold start at hlo hhi
  omega

theorem year_of_nonneg {days : ℤ} (h : 0 ≤ days) : 0 ≤ (civil (days + 719468)).year := by
  obtain ⟨hlo, hhi⟩ := yearOf_spec (days + 719468)
  have hnear := year_near (days + 719468)
  unfold start at hlo hhi
  omega

/-- The date of the day in the proleptic Gregorian calendar, for every day whose year fits the result. The year bounds the
days, and these every sum on the way. -/
theorem daysToYmd_correct (days : ℤ)
    (hyear : -2 ^ 31 ≤ (daysAfter epoch days).1.year ∧ (daysAfter epoch days).1.year < 2 ^ 31) :
    daysToYmd days = some ((daysAfter epoch days).1.year, (daysAfter epoch days).1.month, (daysAfter epoch days).1.day) := by
  rw [← civil_eq] at hyear ⊢
  rw [daysToYmd_civil (range_of_year hyear), asI32_of hyear]

theorem daysToYmd_leap_day :
    (daysAfter epoch 11016).1 = ⟨2000, 2, 29⟩ ∧ daysToYmd 11016 = some (2000, 2, 29) := by
  have hdate : (daysAfter epoch 11016).1 = ⟨2000, 2, 29⟩ := by
    rw [← civil_eq]
    decide
  have hcode := daysToYmd_correct 11016 (by rw [hdate]; decide)
  rw [hdate] at hcode
  exact ⟨hdate, hcode⟩

example : daysToYmd (-719469) = some (0, 2, 29) := by decide

/-- The label has the date of the day and the time in it. -/
theorem isoNow_eq {secs days : ℕ} (hsecs : secs < 2 ^ 64) (hdays : secs / 86400 = days)
    (hyear : (daysAfter epoch days).1.year < 2 ^ 31) :
    ∃ h m s, h < 24 ∧ m < 60 ∧ s < 60 ∧ secs % 86400 = 3600 * h + 60 * m + s ∧
      isoNow secs = some (timestamp ((daysAfter epoch days).1.year, (daysAfter epoch days).1.month,
        (daysAfter epoch days).1.day) h m s) := by
  have hlabel : isoNow secs = (daysToYmd days).bind fun ymd =>
      some (timestamp ymd (secs % 86400 / 3600) (secs % 86400 % 3600 / 60) (secs % 86400 % 60)) := by
    rw [isoNow, hdays, asI64_of (by omega), asU32_of (by omega)]
    rfl
  refine ⟨secs % 86400 / 3600, secs % 86400 % 3600 / 60, secs % 86400 % 60, by omega, by omega, by omega, by omega, ?_⟩
  rw [← civil_eq] at hyear ⊢
  have hlower := year_of_nonneg (Int.natCast_nonneg days)
  have hfits := And.intro ((show (-2 ^ 31 : ℤ) ≤ 0 by decide).trans hlower) hyear
  rw [hlabel, daysToYmd_civil (range_of_year hfits), asI32_of hfits]
  rfl

end Nexal.CivilDate
