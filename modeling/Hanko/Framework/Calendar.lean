import Mathlib

/-!
# The Gregorian calendar

Dates of the proleptic Gregorian calendar (`Date`) and their day numbers,
counted from 0001-01-01. `Date.ofDays` finds the date of a day number, and
`Date.toDays_ofDays` says that it is the date of that day.
-/

namespace Calendar

def isLeap (y : Int) : Bool := y % 4 = 0 ∧ (y % 100 ≠ 0 ∨ y % 400 = 0)

/-- The lengths of the months of a year. -/
def monthLengths (y : Int) : List Nat :=
  [31, if isLeap y then 29 else 28, 31, 30, 31, 30, 31, 31, 30, 31, 30, 31]

/-- The length of month `m`, counted from 1. -/
def daysIn (y : Int) (m : Nat) : Nat := (monthLengths y).getD (m - 1) 0

theorem daysIn_le (y : Int) (m : Nat) : daysIn y m ≤ 31 := by
  have h : ∀ l ≤ 31, ∀ m, [31, l, 31, 30, 31, 30, 31, 31, 30, 31, 30, 31].getD m 0 ≤ 31 := by
    intro l hl m
    rcases m with _ | _ | _ | _ | _ | _ | _ | _ | _ | _ | _ | _ | m <;> simp [hl]
  exact h _ (by split <;> decide) _

/-- The number of days before the first day of year `y`. -/
def daysBeforeYear (y : Int) : Int := 365 * (y - 1) + (y - 1) / 4 - (y - 1) / 100 + (y - 1) / 400

/-- A date: a day of a month of a year. -/
structure Date where
  year : Int
  month : Nat
  day : Nat
  month_pos : 1 ≤ month
  month_le : month ≤ 12
  day_pos : 1 ≤ day
  day_le : day ≤ daysIn year month

/-- The number of days since 0001-01-01. -/
def Date.toDays (d : Date) : Int :=
  daysBeforeYear d.year + ((monthLengths d.year).take (d.month - 1)).sum + (d.day - 1)

/-- The place of `d` in consecutive stretches of the given lengths: which
stretch, and where in it. -/
def locate : List Nat → Nat → Nat × Nat
  | [], d => (0, d)
  | l :: ls, d => if d < l then (0, d) else ((locate ls (d - l)).1 + 1, (locate ls (d - l)).2)

theorem locate_spec (ls : List Nat) (d : Nat) (h : d < ls.sum) :
    (locate ls d).1 < ls.length ∧ (locate ls d).2 < ls.getD (locate ls d).1 0 ∧
      (ls.take (locate ls d).1).sum + (locate ls d).2 = d := by
  induction ls generalizing d with
  | nil => simp at h
  | cons l ls ih =>
    rw [locate]
    split
    · rename_i hl
      simpa using hl
    · rename_i hl
      obtain ⟨h₁, h₂, h₃⟩ := ih (d - l) (by rw [List.sum_cons] at h; omega)
      refine ⟨by simpa using h₁, by simpa using h₂, ?_⟩
      rw [List.take_succ_cons, List.sum_cons]
      omega

/-- Cycles of 400, 100, 4 and 1 years: the year of a day number, and the day
of that year. The last of 4 centuries and the last of 4 years have one day
more than the others. -/
def yearDay (n : Int) : Int × Nat :=
  let r := n % 146097
  let c := min (r / 36524) 3
  let r := r - 36524 * c
  let q := r / 1461
  let r := r % 1461
  let a := min (r / 365) 3
  (400 * (n / 146097) + 100 * c + 4 * q + a + 1, (r - 365 * a).toNat)

theorem sum_monthLengths (y : Int) : (monthLengths y).sum = if isLeap y then 366 else 365 := by
  unfold monthLengths
  split <;> simp_all

/-- The cycles of a day number, and how they bound one another. -/
theorem yearDay_cycles (n : Int) : ∃ g c q a d : Int,
    yearDay n = (400 * g + 100 * c + 4 * q + a + 1, d.toNat) ∧
      n = 146097 * g + 36524 * c + 1461 * q + 365 * a + d ∧
      (0 ≤ c ∧ c ≤ 3) ∧ (0 ≤ q ∧ q ≤ 24) ∧ (0 ≤ a ∧ a ≤ 3) ∧ (0 ≤ d ∧ d ≤ 365) ∧
      (d = 365 → a = 3 ∧ (q = 24 → c = 3)) := by
  refine ⟨_, _, _, _, _, rfl, ?_⟩
  have hr : 0 ≤ n % 146097 ∧ n % 146097 < 146097 := by omega
  have hn : n = 146097 * (n / 146097) + n % 146097 := by omega
  generalize n % 146097 = r at *
  have hc : 0 ≤ min (r / 36524) 3 ∧ min (r / 36524) 3 ≤ 3 ∧ 0 ≤ r - 36524 * min (r / 36524) 3 ∧
      (r - 36524 * min (r / 36524) 3 ≤ 36523 ∨
        r - 36524 * min (r / 36524) 3 = 36524 ∧ min (r / 36524) 3 = 3) := by omega
  have hrc : r = 36524 * min (r / 36524) 3 + (r - 36524 * min (r / 36524) 3) := by omega
  generalize min (r / 36524) 3 = c at *
  generalize r - 36524 * c = t at *
  have ht : t = 1461 * (t / 1461) + t % 1461 ∧ 0 ≤ t % 1461 ∧ t % 1461 < 1461 := by omega
  generalize t / 1461 = q at *
  generalize t % 1461 = u at *
  omega

/-- The day of the year stands in the year, and makes up the day number. -/
theorem yearDay_spec (n : Int) :
    (yearDay n).2 < (monthLengths (yearDay n).1).sum ∧
      daysBeforeYear (yearDay n).1 + (yearDay n).2 = n := by
  obtain ⟨g, c, q, a, d, hy, hn, hc, hq, ha, hd, hlong⟩ := yearDay_cycles n
  rw [sum_monthLengths, hy]
  constructor
  · by_cases h : d = 365
    · have hleap : isLeap (400 * g + 100 * c + 4 * q + a + 1) = true := by
        simp only [isLeap, decide_eq_true_eq]; omega
      rw [if_pos hleap]; omega
    · split <;> omega
  · have h4 : (400 * g + 100 * c + 4 * q + a + 1 - 1) / 4 = 100 * g + 25 * c + q := by omega
    have h100 : (400 * g + 100 * c + 4 * q + a + 1 - 1) / 100 = 4 * g + c := by omega
    have h400 : (400 * g + 100 * c + 4 * q + a + 1 - 1) / 400 = g := by omega
    simp only [daysBeforeYear, h4, h100, h400]
    omega

/-- The date of a day number. -/
def Date.ofDays (n : Int) : Date :=
  have h := locate_spec (monthLengths (yearDay n).1) (yearDay n).2 (yearDay_spec n).1
  { year := (yearDay n).1
    month := (locate (monthLengths (yearDay n).1) (yearDay n).2).1 + 1
    day := (locate (monthLengths (yearDay n).1) (yearDay n).2).2 + 1
    month_pos := by omega
    month_le := h.1
    day_pos := by omega
    day_le := h.2.1 }

theorem Date.toDays_ofDays (n : Int) : (Date.ofDays n).toDays = n := by
  have h := (locate_spec _ _ (yearDay_spec n).1).2.2
  have h' := (yearDay_spec n).2
  simp only [Date.toDays, Date.ofDays, Nat.add_sub_cancel]
  omega

end Calendar
