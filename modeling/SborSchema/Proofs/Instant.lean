/-
# Different instants are written differently

The date tells the day: within an era, the century gives the leap days that are
left out, so that the year and the day of the year give the day of the era
back, and the month and the day of the month give the day of the year. The time
of day tells the second. In the written form all parts after the year have a
fixed width, so the parts can be read off from its end.

Key theorems: `Digits.padded_injective`, `CivilDate.toDays_ofDays`,
`Instant.shortText_injective`.
-/
import SborSchema.Instant
import SborSchema.Proofs.Digits

namespace SborSchema

/-! ### Digits of a fixed width -/

namespace Digits

/-- Zeros in front do not count. -/
theorem natValue_padded (width n : Nat) : natValue (padded width n) = n := by
  have hzeros : ∀ k, (List.replicate k '0').foldl (fun n d => 10 * n + digitValue d) 0 = 0 := by
    intro k
    induction k with
    | zero => rfl
    | succ k ih =>
      have hzero : 10 * 0 + digitValue '0' = 0 := rfl
      rw [List.replicate_succ, List.foldl_cons, hzero, ih]
  rw [natValue, padded, List.foldl_append, hzeros]
  exact Nat.ofDigitChars_ten_toDigits

theorem padded_injective {width m n : Nat} (h : padded width m = padded width n) : m = n := by
  rw [← natValue_padded width m, h, natValue_padded]

theorem isDigit_of_mem_padded {width n : Nat} {c : Char} (hc : c ∈ padded width n) :
    isDigit c = true := by
  rcases List.mem_append.mp hc with hc | hc
  · rw [List.eq_of_mem_replicate hc]
    rfl
  · exact isDigit_of_mem_ofNat hc

/-- Numbers below a hundred have two digits. -/
theorem length_padded_two : ∀ n < 100, (padded 2 n).length = 2 := by
  decide

/-- The last two digits of a text can be read off. -/
theorem append_padded_two {xs ys : List Char} {c : Char} {m n : Nat} (hm : m < 100) (hn : n < 100)
    (h : xs ++ c :: padded 2 m = ys ++ c :: padded 2 n) : xs = ys ∧ m = n := by
  have hlength : (c :: padded 2 m).length = (c :: padded 2 n).length := by
    rw [List.length_cons, List.length_cons, length_padded_two m hm, length_padded_two n hn]
  obtain ⟨hfront, hback⟩ := List.append_inj' h hlength
  exact ⟨hfront, padded_injective (List.cons.inj hback).2⟩

end Digits

/-! ### Dates -/

namespace CivilDate

/-- In an era, the years before a century leave out one leap day for each century but the
first, and the last day belongs to the last year. -/
theorem century_of_year {day year century : Nat} (hday : day < 146097)
    (hcentury : day / 36524 = century)
    (hyear : year = (day - day / 1460 + century - day / 146096) / 365) :
    year / 100 = min century 3 := by
  -- The bounds of the year are linear once the number of leap days left out is known.
  have hcases : century = 0 ∨ century = 1 ∨ century = 2 ∨ century = 3 ∨ century = 4 := by omega
  obtain rfl | rfl | rfl | rfl | rfl := hcases <;> omega

/-- The year of a day of an era starts no later than the day, and no more than 366 days
before it. -/
theorem year_start {day year : Nat} (hday : day < 146097)
    (hyear : year = (day - day / 1460 + day / 36524 - day / 146096) / 365) :
    365 * year + year / 4 - year / 100 ≤ day ∧
      day - (365 * year + year / 4 - year / 100) ≤ 366 := by
  rw [century_of_year hday rfl hyear]
  omega

/-- The month counted from March, for a day of the year, starts no later than the day. -/
theorem month_start {day month : Nat} (hday : day ≤ 366) (hmonth : month = (5 * day + 2) / 153) :
    month ≤ 11 ∧ (153 * month + 2) / 5 ≤ day := by
  omega

/-- A day by the parts of its date: the era, the year of the era, the month counted from
March and the day of the month, all counted from zero. -/
theorem exists_parts (d : Int) : ∃ (era : Int) (year month day : Nat),
    year < 400 ∧ month ≤ 11 ∧ day ≤ 30 ∧
    d = 146097 * era + (365 * year + year / 4 - year / 100 : Nat) +
      ((153 * month + 2) / 5 + day : Nat) - 719468 ∧
    ofDays d = {
      year := if month < 10 then year + era * 400 else year + era * 400 + 1
      month := if month < 10 then month + 3 else month - 9
      day := day + 1 } := by
  have hquotient : (d + 719468).fdiv 146097 = (d + 719468) / 146097 :=
    Int.fdiv_eq_ediv_of_nonneg _ (by decide)
  have hremainder : (d + 719468).fmod 146097 = (d + 719468) % 146097 :=
    Int.fmod_eq_emod_of_nonneg _ (by decide)
  simp only [ofDays, hquotient, hremainder]
  generalize hday : ((d + 719468) % 146097).toNat = dayOfEra
  generalize hera : (d + 719468) / 146097 = era
  have hdays : d = 146097 * era + dayOfEra - 719468 := by omega
  have hlt : dayOfEra < 146097 := by omega
  generalize hyear : (dayOfEra - dayOfEra / 1460 + dayOfEra / 36524 - dayOfEra / 146096) / 365 =
    year
  have hcentury : year / 100 = min (dayOfEra / 36524) 3 := century_of_year hlt rfl hyear.symm
  obtain ⟨hstart, hend⟩ := year_start hlt hyear.symm
  generalize hdayOfYear : dayOfEra - (365 * year + year / 4 - year / 100) = dayOfYear at hend
  generalize hmonth : (5 * dayOfYear + 2) / 153 = month
  obtain ⟨hlast, hfirst⟩ := month_start hend hmonth.symm
  refine ⟨era, year, month, dayOfYear - (153 * month + 2) / 5, ?_, hlast, ?_, ?_, ?_⟩
  · omega
  · omega
  · omega
  · by_cases hm : month < 10
    · have hmarch : ¬month + 3 ≤ 2 := by omega
      simp only [if_pos hm, if_neg hmarch]
    · have hmarch : month - 9 ≤ 2 := by omega
      simp only [if_neg hm, if_pos hmarch]

theorem month_le (d : Int) : (ofDays d).month ≤ 12 := by
  obtain ⟨era, year, month, day, -, hmonth, -, -, hd⟩ := exists_parts d
  rw [hd]
  by_cases hm : month < 10
  · simp only [if_pos hm]
    omega
  · simp only [if_neg hm]
    omega

theorem day_le (d : Int) : (ofDays d).day ≤ 31 := by
  obtain ⟨era, year, month, day, -, -, hday, -, hd⟩ := exists_parts d
  rw [hd]
  exact Nat.succ_le_succ hday

/-- The number of days from the first of January 1970 to a date. -/
def toDays (date : CivilDate) : Int :=
  let year := if date.month ≤ 2 then date.year - 1 else date.year
  let monthFromMarch := if date.month ≤ 2 then date.month + 9 else date.month - 3
  let dayOfYear := (153 * monthFromMarch + 2) / 5 + date.day - 1
  146097 * (year / 400) + 365 * (year % 400) + year % 400 / 4 - year % 400 / 100 + dayOfYear - 719468

/-- **The date tells the day.** -/
theorem toDays_ofDays (d : Int) : (ofDays d).toDays = d := by
  obtain ⟨era, year, month, day, hyear, hmonth, hday, hdays, hd⟩ := exists_parts d
  have hquotient : ((year : Int) + era * 400) / 400 = era := by omega
  have hremainder : ((year : Int) + era * 400) % 400 = year := by omega
  rw [hd, toDays]
  by_cases hm : month < 10
  · have hmarch : ¬month + 3 ≤ 2 := by omega
    simp only [if_pos hm, if_neg hmarch, hquotient, hremainder, Nat.add_sub_cancel]
    omega
  · have hmarch : month - 9 ≤ 2 := by omega
    simp only [if_neg hm, if_pos hmarch, Int.add_sub_cancel, hquotient, hremainder,
      Nat.sub_add_cancel (show 9 ≤ month by omega)]
    omega

/-- The year of its written form. -/
def yearOfChars : List Char → Int
  | '-' :: ds => -Digits.natValue ds
  | '+' :: ds => Digits.natValue ds
  | ds => Digits.natValue ds

theorem yearOfChars_of_isDigit {ds : List Char} (hds : ∀ c ∈ ds, Digits.isDigit c = true) :
    yearOfChars ds = Digits.natValue ds := by
  unfold yearOfChars
  split
  · exact absurd (hds '-' List.mem_cons_self) (by decide)
  · exact absurd (hds '+' List.mem_cons_self) (by decide)
  · rfl

/-- A year is read back from its digits and its sign. -/
theorem yearOfChars_yearChars (year : Int) : yearOfChars (yearChars year) = year := by
  rw [yearChars]
  by_cases hshort : 0 ≤ year ∧ year ≤ 9999
  · rw [if_pos hshort, yearOfChars_of_isDigit fun _ => Digits.isDigit_of_mem_padded,
      Digits.natValue_padded]
    omega
  · rw [if_neg hshort]
    by_cases hneg : year < 0
    · rw [if_pos hneg, yearOfChars, Digits.natValue_padded]
      omega
    · rw [if_neg hneg, yearOfChars, Digits.natValue_padded]
      omega

end CivilDate

/-! ### Instants -/

namespace Instant

/-- **Different instants are written differently.** -/
theorem chars_injective {t u : Instant} (h : t.chars = u.chars) : t = u := by
  simp only [chars] at h
  have hquotient : ∀ x : Int, x.fdiv 86400 = x / 86400 := fun x =>
    Int.fdiv_eq_ediv_of_nonneg x (by decide)
  have hremainder : ∀ x : Int, x.fmod 86400 = x % 86400 := fun x =>
    Int.fmod_eq_emod_of_nonneg x (by decide)
  simp only [hquotient, hremainder] at h
  obtain ⟨h, hsecond⟩ := Digits.append_padded_two (by omega) (by omega) h
  obtain ⟨h, hminute⟩ := Digits.append_padded_two (by omega) (by omega) h
  obtain ⟨h, hhour⟩ := Digits.append_padded_two (by omega) (by omega) h
  obtain ⟨h, hday⟩ := Digits.append_padded_two
    (Nat.lt_of_le_of_lt (CivilDate.day_le _) (by decide))
    (Nat.lt_of_le_of_lt (CivilDate.day_le _) (by decide)) h
  obtain ⟨h, hmonth⟩ := Digits.append_padded_two
    (Nat.lt_of_le_of_lt (CivilDate.month_le _) (by decide))
    (Nat.lt_of_le_of_lt (CivilDate.month_le _) (by decide)) h
  have hyear := congrArg CivilDate.yearOfChars h
  rw [CivilDate.yearOfChars_yearChars, CivilDate.yearOfChars_yearChars] at hyear
  have hdate : CivilDate.ofDays (t.seconds / 86400) = CivilDate.ofDays (u.seconds / 86400) := by
    rcases hd : CivilDate.ofDays (t.seconds / 86400) with ⟨y, m, d⟩
    rcases hd' : CivilDate.ofDays (u.seconds / 86400) with ⟨y', m', d'⟩
    rw [hd, hd'] at hyear hmonth hday
    simp only at hyear hmonth hday
    rw [hyear, hmonth, hday]
  have hdays := congrArg CivilDate.toDays hdate
  rw [CivilDate.toDays_ofDays, CivilDate.toDays_ofDays] at hdays
  have hseconds : t.seconds = u.seconds := by omega
  rcases t with ⟨t, ht⟩
  obtain rfl : t = u.seconds := hseconds
  rfl

theorem shortText_injective {t u : Instant} (h : t.shortText = u.shortText) : t = u :=
  chars_injective (List.append_cancel_right (String.ofList_injective h))

end Instant
end SborSchema
