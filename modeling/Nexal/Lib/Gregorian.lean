import Mathlib.Algebra.Group.End
import Mathlib.Data.Int.Order.Basic

/-! The proleptic Gregorian calendar: dates, the day after and the day before, and the date of a day that is counted
from a first one. The leap rule holds in every year, before the year 1 too. -/

namespace Nexal.Gregorian

def IsLeap (year : ℤ) : Prop := year % 4 = 0 ∧ (year % 100 ≠ 0 ∨ year % 400 = 0)

instance (year : ℤ) : Decidable (IsLeap year) :=
  inferInstanceAs (Decidable (year % 4 = 0 ∧ (year % 100 ≠ 0 ∨ year % 400 = 0)))

def monthLength (year : ℤ) : ℕ → ℕ
  | 2 => if IsLeap year then 29 else 28
  | 4 | 6 | 9 | 11 => 30
  | _ => 31

structure Ymd where
  year : ℤ
  month : ℕ
  day : ℕ
deriving DecidableEq, Repr

structure Ymd.Valid (d : Ymd) : Prop where
  month_pos : 1 ≤ d.month
  month_le : d.month ≤ 12
  day_pos : 1 ≤ d.day
  day_le : d.day ≤ monthLength d.year d.month

def Ymd.next (d : Ymd) : Ymd :=
  if d.day < monthLength d.year d.month then { d with day := d.day + 1 }
  else if d.month < 12 then ⟨d.year, d.month + 1, 1⟩
  else ⟨d.year + 1, 1, 1⟩

def Ymd.prev (d : Ymd) : Ymd :=
  if 1 < d.day then { d with day := d.day - 1 }
  else if 1 < d.month then ⟨d.year, d.month - 1, monthLength d.year (d.month - 1)⟩
  else ⟨d.year - 1, 12, 31⟩

variable {d : Ymd}

theorem monthLength_pos (year : ℤ) (month : ℕ) : 1 ≤ monthLength year month := by
  unfold monthLength
  split <;> [split_ifs; skip; skip; skip; skip; skip] <;> omega

@[simp] theorem monthLength_december (year : ℤ) : monthLength year 12 = 31 := rfl

theorem Ymd.Valid.next (h : d.Valid) : d.next.Valid := by
  obtain ⟨hm1, hm12, hd1, hdle⟩ := h
  unfold Ymd.next
  split_ifs with hday hmonth
  · exact ⟨hm1, hm12, by simp, hday⟩
  · exact ⟨by simp, hmonth, le_rfl, monthLength_pos _ _⟩
  · exact ⟨le_rfl, by simp, le_rfl, monthLength_pos _ _⟩

theorem Ymd.Valid.prev (h : d.Valid) : d.prev.Valid := by
  obtain ⟨hm1, hm12, hd1, hdle⟩ := h
  unfold Ymd.prev
  split_ifs with hday hmonth
  · exact ⟨hm1, hm12, Nat.le_sub_one_of_lt hday, (Nat.sub_le _ _).trans hdle⟩
  · exact ⟨Nat.le_sub_one_of_lt hmonth, (Nat.sub_le _ _).trans hm12, monthLength_pos _ _, le_rfl⟩
  · exact ⟨by simp, le_rfl, by simp, le_rfl⟩

theorem prev_next (h : d.Valid) : d.next.prev = d := by
  obtain ⟨year, month, day⟩ := d
  obtain ⟨hm1, hm12, hd1, hdle⟩ := h
  simp only at hm1 hm12 hd1 hdle
  unfold Ymd.next
  split_ifs with hday hmonth
  · simp only [Ymd.prev]
    rw [if_pos (by omega), Nat.add_sub_cancel]
  · simp only [not_lt] at hday hmonth
    have hlast : day = monthLength year month := by omega
    simp only [Ymd.prev]
    rw [if_neg (by omega), if_pos (by omega), Nat.add_sub_cancel, ← hlast]
  · simp only [not_lt] at hday hmonth
    have hdec : month = 12 := by omega
    subst hdec
    have hlast : day = 31 := by
      rw [monthLength_december] at hday hdle
      omega
    simp only [Ymd.prev]
    rw [if_neg (by omega), if_neg (by omega), hlast, Int.add_sub_cancel]

theorem next_prev (h : d.Valid) : d.prev.next = d := by
  obtain ⟨year, month, day⟩ := d
  obtain ⟨hm1, hm12, hd1, hdle⟩ := h
  simp only at hm1 hm12 hd1 hdle
  unfold Ymd.prev
  split_ifs with hday hmonth
  · simp only [Ymd.next]
    rw [if_pos (by omega), Nat.sub_add_cancel hd1]
  · simp only [not_lt] at hday hmonth
    have hfirst : day = 1 := by omega
    simp only [Ymd.next]
    rw [if_neg (by omega), if_pos (by omega), Nat.sub_add_cancel hm1, hfirst]
  · simp only [not_lt] at hday hmonth
    have hjan : month = 1 := by omega
    have hfirst : day = 1 := by omega
    simp [Ymd.next, hjan, hfirst]

abbrev Date := {d : Ymd // d.Valid}

/-- The day after, and back again. -/
def tomorrow : Equiv.Perm Date where
  toFun d := ⟨d.1.next, d.2.next⟩
  invFun d := ⟨d.1.prev, d.2.prev⟩
  left_inv d := Subtype.ext (prev_next d.2)
  right_inv d := Subtype.ext (next_prev d.2)

/-- The date so many days after (or, for a negative number, before) another. -/
def daysAfter (first : Date) (n : ℤ) : Date := (tomorrow ^ n) first

@[simp] theorem daysAfter_zero (first : Date) : daysAfter first 0 = first := by simp [daysAfter]

theorem daysAfter_succ (first : Date) (n : ℤ) : (daysAfter first (n + 1)).1 = (daysAfter first n).1.next := by
  rw [daysAfter, Int.add_comm, zpow_one_add, Equiv.Perm.mul_apply]
  rfl

/-- Whatever starts at the date and goes on day by day counts the days. -/
theorem eq_daysAfter {first : Date} {f : ℤ → Ymd} (hvalid : ∀ n, (f n).Valid) (hzero : f 0 = first.1)
    (hsucc : ∀ n, f (n + 1) = (f n).next) (n : ℤ) : f n = (daysAfter first n).1 := by
  induction n with
  | zero => rw [hzero, daysAfter_zero]
  | succ n ih => rw [hsucc, ih, daysAfter_succ]
  | pred n ih =>
    have hback : ∀ d : Ymd, d.Valid → ∀ n : ℤ, d.next = (daysAfter first n).1 →
      d = (daysAfter first (n - 1)).1 := by
      intro d hd n hn
      have hstep := daysAfter_succ first (n - 1)
      rw [Int.sub_add_cancel] at hstep
      rw [← prev_next hd, hn, hstep, prev_next (daysAfter first (n - 1)).2]
    refine hback _ (hvalid _) _ ?_
    rw [← hsucc, Int.sub_add_cancel, ih]

end Nexal.Gregorian
