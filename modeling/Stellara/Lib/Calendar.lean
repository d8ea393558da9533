import Mathlib.Algebra.Group.Nat.Defs
import Mathlib.Data.Int.Order.Basic
import Mathlib.Tactic.Basic
import Mathlib.Tactic.Set

/-!
# Calendar dates

The proleptic Gregorian calendar: the date of a day counted from 1970-01-01, and the ISO 8601 text
of an instant in milliseconds.  The year is counted from March on, so that the leap day is the last
of a year, and in eras of 400 years.

    (CivilDate.ofDays days).toDays = days                       (toDays_ofDays)
    isoChars t = isoChars t' → t = t'                           (isoChars_inj)
-/

/-- The year of a day in its era: 36524 days in a century, 1461 in four years and 365 in one, and
the last of each may be a day longer. -/
def yearOfEra (day : Int) : Int :=
  let century := min (day / 36524) 3
  let cycle := (day - 36524 * century) / 1461
  century * 100 + cycle * 4 + min ((day - 36524 * century - 1461 * cycle) / 365) 3

/-- The first day of a year of the era. -/
def startOfYear (year : Int) : Int := 365 * year + year / 4 - year / 100

/-- The month of a day of the year, March being 0. -/
def monthFromMarch (day : Int) : Int := (5 * day + 2) / 153

/-- The first day of a month of the year. -/
def startOfMonth (month : Int) : Int := (153 * month + 2) / 5

theorem yearOfEra_bounds {day : Int} (h0 : 0 ≤ day) (h1 : day < 146097) :
    0 ≤ yearOfEra day ∧ yearOfEra day < 400 ∧
      0 ≤ day - startOfYear (yearOfEra day) ∧ day - startOfYear (yearOfEra day) ≤ 365 := by
  unfold yearOfEra startOfYear
  dsimp only
  set century := min (day / 36524) 3
  have hcentury : 0 ≤ century ∧ century ≤ 3 := by omega
  have hrest : 0 ≤ day - 36524 * century ∧ day - 36524 * century ≤ 36524 := by omega
  clear_value century
  generalize hday : day - 36524 * century = rest at *
  set cycle := rest / 1461
  have hcycle : 0 ≤ cycle ∧ cycle ≤ 24 := by omega
  have hlast : 0 ≤ rest - 1461 * cycle ∧ rest - 1461 * cycle ≤ 1460 := by omega
  clear_value cycle
  generalize hday' : rest - 1461 * cycle = last at *
  set year := min (last / 365) 3
  have hyear : 0 ≤ year ∧ year ≤ 3 := by omega
  have h4 : (century * 100 + cycle * 4 + year) / 4 = century * 25 + cycle := by omega
  have h100 : (century * 100 + cycle * 4 + year) / 100 = century := by omega
  rw [h4, h100]
  refine ⟨by omega, by omega, by omega, by omega⟩

theorem monthFromMarch_bounds {day : Int} (h0 : 0 ≤ day) (h1 : day ≤ 365) :
    0 ≤ monthFromMarch day ∧ monthFromMarch day ≤ 11 := by
  unfold monthFromMarch
  omega

structure CivilDate where
  year : Int
  month : Int
  day : Int
  deriving DecidableEq

namespace CivilDate

/-- The date that is `days` days after 1970-01-01. -/
def ofDays (days : Int) : CivilDate :=
  let z := days + 719468
  let yoe := yearOfEra (z % 146097)
  let doy := z % 146097 - startOfYear yoe
  let mp := monthFromMarch doy
  let month := if mp < 10 then mp + 3 else mp - 9
  { year := z / 146097 * 400 + yoe + if month ≤ 2 then 1 else 0
    month
    day := doy - startOfMonth mp + 1 }

def toDays (d : CivilDate) : Int :=
  let y := d.year - if d.month ≤ 2 then 1 else 0
  let mp := if 2 < d.month then d.month - 3 else d.month + 9
  y / 400 * 146097 + startOfYear (y % 400) + startOfMonth mp + d.day - 1 - 719468

theorem toDays_ofDays (days : Int) : (ofDays days).toDays = days := by
  have h0 : 0 ≤ (days + 719468) % 146097 := Int.emod_nonneg _ (by decide)
  have h1 : (days + 719468) % 146097 < 146097 := Int.emod_lt_of_pos _ (by decide)
  obtain ⟨hy0, hy1, hd0, hd1⟩ := yearOfEra_bounds h0 h1
  have hm := monthFromMarch_bounds hd0 hd1
  unfold ofDays toDays
  dsimp only
  have hadd : ∀ y n : Int, y + n - n = y := fun y n => by omega
  have hmonth : ∀ mp : Int, 0 ≤ mp ∧ mp ≤ 11 →
      (if 2 < (if mp < 10 then mp + 3 else mp - 9) then (if mp < 10 then mp + 3 else mp - 9) - 3
        else (if mp < 10 then mp + 3 else mp - 9) + 9) = mp := by
    intro mp hmp
    split <;> split <;> omega
  rw [hadd, hmonth _ hm]
  generalize yearOfEra ((days + 719468) % 146097) = yoe at *
  have hera : ((days + 719468) / 146097 * 400 + yoe) / 400 = (days + 719468) / 146097 := by omega
  have hyear : ((days + 719468) / 146097 * 400 + yoe) % 400 = yoe := by omega
  rw [hera, hyear]
  omega

example : ofDays 19782 = ⟨2024, 2, 29⟩ := by decide

theorem ofDays_bounds (days : Int) :
    1 ≤ (ofDays days).month ∧ (ofDays days).month ≤ 12 ∧ 1 ≤ (ofDays days).day ∧
      (ofDays days).day ≤ 31 := by
  have h0 : 0 ≤ (days + 719468) % 146097 := Int.emod_nonneg _ (by decide)
  have h1 : (days + 719468) % 146097 < 146097 := Int.emod_lt_of_pos _ (by decide)
  obtain ⟨-, -, hd0, hd1⟩ := yearOfEra_bounds h0 h1
  have hm := monthFromMarch_bounds hd0 hd1
  unfold ofDays
  dsimp only
  generalize (days + 719468) % 146097 - startOfYear (yearOfEra ((days + 719468) % 146097)) = doy at *
  unfold startOfMonth
  unfold monthFromMarch at *
  refine ⟨?_, ?_, ?_, ?_⟩
  · split <;> omega
  · split <;> omega
  · omega
  · omega

/-- The years of ten digits of days are less than a million. -/
theorem ofDays_year {days : Int} (h : -100000000 ≤ days ∧ days ≤ 100000000) :
    -1000000 < (ofDays days).year ∧ (ofDays days).year < 1000000 := by
  have h0 : 0 ≤ (days + 719468) % 146097 := Int.emod_nonneg _ (by decide)
  have h1 : (days + 719468) % 146097 < 146097 := Int.emod_lt_of_pos _ (by decide)
  obtain ⟨hy0, hy1, -, -⟩ := yearOfEra_bounds h0 h1
  unfold ofDays
  dsimp only
  generalize yearOfEra ((days + 719468) % 146097) = yoe at *
  constructor
  · split <;> omega
  · split <;> omega

/-- The date of an instant in milliseconds, in UTC. -/
def ofMillis (t : Int) : CivilDate := ofDays (t / 86400000)

end CivilDate

/-! ## ISO 8601 -/

/-- The last `width` decimal digits of `n`. -/
def digits : Nat → Nat → List Char
  | 0, _ => []
  | width + 1, n => digits width (n / 10) ++ [Nat.digitChar (n % 10)]

/-- A year outside of 0 to 9999 has a sign and six digits. -/
def isoYear (year : Int) : List Char :=
  if 0 ≤ year ∧ year ≤ 9999 then digits 4 year.toNat
  else (if year < 0 then '-' else '+') :: digits 6 year.natAbs

/-- `YYYY-MM-DDTHH:mm:ss.sssZ` -/
def isoChars (t : Int) : List Char :=
  let date := CivilDate.ofMillis t
  let ms := (t % 86400000).toNat
  isoYear date.year ++ '-' :: digits 2 date.month.toNat ++ '-' :: digits 2 date.day.toNat ++
    'T' :: digits 2 (ms / 3600000) ++ ':' :: digits 2 (ms / 60000 % 60) ++
    ':' :: digits 2 (ms / 1000 % 60) ++ '.' :: digits 3 (ms % 1000) ++ ['Z']

def isoString (t : Int) : String := String.ofList (isoChars t)

example : isoString 1709164800001 = "2024-02-29T00:00:00.001Z" := by decide

theorem length_digits (width n : Nat) : (digits width n).length = width := by
  induction width generalizing n with
  | zero => rfl
  | succ width ih =>
    unfold digits
    rw [List.length_append, ih]
    rfl

theorem digitChar_inj : ∀ m < 10, ∀ n < 10, Nat.digitChar m = Nat.digitChar n → m = n := by
  decide

theorem digits_inj {width m n : Nat} (hm : m < 10 ^ width) (hn : n < 10 ^ width)
    (h : digits width m = digits width n) : m = n := by
  induction width generalizing m n with
  | zero => omega
  | succ width ih =>
    unfold digits at h
    obtain ⟨hinit, hlast⟩ := List.append_inj' h rfl
    have hdiv : m / 10 = n / 10 := by
      refine ih ?_ ?_ hinit
      · rw [Nat.pow_succ] at hm
        omega
      · rw [Nat.pow_succ] at hn
        omega
    have hmod := digitChar_inj _ (Nat.mod_lt m (by decide)) _ (Nat.mod_lt n (by decide))
      (List.singleton_inj.mp hlast)
    omega

/-- Digits are read up to their number. -/
theorem digits_append_inj {width m n : Nat} {u v : List Char} (hm : m < 10 ^ width)
    (hn : n < 10 ^ width) (h : digits width m ++ u = digits width n ++ v) : m = n ∧ u = v := by
  obtain ⟨hdigits, hrest⟩ := List.append_inj h (by rw [length_digits, length_digits])
  exact ⟨digits_inj hm hn hdigits, hrest⟩

theorem digitChar_ne_sign : ∀ n < 10, Nat.digitChar n ≠ '-' ∧ Nat.digitChar n ≠ '+' := by
  decide

theorem ne_sign_of_mem_digits {width n : Nat} {c : Char} (h : c ∈ digits width n) :
    c ≠ '-' ∧ c ≠ '+' := by
  induction width generalizing n with
  | zero => cases h
  | succ width ih =>
    unfold digits at h
    rcases List.mem_append.mp h with h | h
    · exact ih h
    · rw [List.mem_singleton.mp h]
      exact digitChar_ne_sign _ (Nat.mod_lt n (by decide))

theorem isoYear_append_inj {y y' : Int} {u v : List Char} (hy : -1000000 < y ∧ y < 1000000)
    (hy' : -1000000 < y' ∧ y' < 1000000) (h : isoYear y ++ u = isoYear y' ++ v) :
    y = y' ∧ u = v := by
  -- a sign is no digit
  have hsign : ∀ {n : Nat} {c : Char} {w w' : List Char}, c = '-' ∨ c = '+' →
      digits 4 n ++ w ≠ c :: w' := by
    intro n c w w' hc heq
    obtain ⟨d, rest, hd⟩ : ∃ d rest, digits 4 n = d :: rest :=
      List.exists_cons_of_length_eq_add_one (length_digits 4 n)
    have hne := ne_sign_of_mem_digits (hd ▸ List.mem_cons_self : d ∈ digits 4 n)
    rw [hd] at heq
    have hdc : d = c := (List.cons.inj heq).1
    rcases hc with rfl | rfl
    · exact hne.1 hdc
    · exact hne.2 hdc
  have hchar : ∀ z : Int, (if z < 0 then '-' else '+') = '-' ∨ (if z < 0 then '-' else '+') = '+' := by
    intro z
    split
    · exact .inl rfl
    · exact .inr rfl
  unfold isoYear at h
  by_cases hs : 0 ≤ y ∧ y ≤ 9999 <;> by_cases hs' : 0 ≤ y' ∧ y' ≤ 9999
  · rw [if_pos hs, if_pos hs'] at h
    obtain ⟨heq, hrest⟩ := digits_append_inj (by omega) (by omega) h
    exact ⟨by omega, hrest⟩
  · rw [if_pos hs, if_neg hs'] at h
    exact absurd h (hsign (hchar y'))
  · rw [if_neg hs, if_pos hs'] at h
    exact absurd h.symm (hsign (hchar y))
  · rw [if_neg hs, if_neg hs'] at h
    obtain ⟨hhead, htail⟩ := List.cons.inj h
    obtain ⟨heq, hrest⟩ := digits_append_inj (by omega) (by omega) htail
    refine ⟨?_, hrest⟩
    split at hhead <;> split at hhead
    · omega
    · cases hhead
    · cases hhead
    · omega

theorem length_isoYear (y : Int) : (isoYear y).length = if 0 ≤ y ∧ y ≤ 9999 then 4 else 7 := by
  unfold isoYear
  split
  · rw [length_digits]
  · rw [List.length_cons, length_digits]

theorem isoChars_inj {t t' : Int} (ht : -8640000000000000 ≤ t ∧ t ≤ 8640000000000000)
    (ht' : -8640000000000000 ≤ t' ∧ t' ≤ 8640000000000000) (h : isoChars t = isoChars t') :
    t = t' := by
  obtain ⟨hm0, hm1, hd0, hd1⟩ := CivilDate.ofDays_bounds (t / 86400000)
  obtain ⟨hm0', hm1', hd0', hd1'⟩ := CivilDate.ofDays_bounds (t' / 86400000)
  have hbound : -100000000 ≤ t / 86400000 ∧ t / 86400000 ≤ 100000000 := by omega
  have hbound' : -100000000 ≤ t' / 86400000 ∧ t' / 86400000 ≤ 100000000 := by omega
  have hyear := CivilDate.ofDays_year hbound
  have hyear' := CivilDate.ofDays_year hbound'
  have hdays := CivilDate.toDays_ofDays (t / 86400000)
  have hdays' := CivilDate.toDays_ofDays (t' / 86400000)
  unfold isoChars CivilDate.ofMillis at h
  simp only [List.append_assoc, List.cons_append] at h
  generalize CivilDate.ofDays (t / 86400000) = d at *
  generalize CivilDate.ofDays (t' / 86400000) = d' at *
  obtain ⟨hy, h⟩ := isoYear_append_inj hyear hyear' h
  obtain ⟨hmonth, h⟩ := digits_append_inj (by omega) (by omega) (List.cons.inj h).2
  obtain ⟨hday, h⟩ := digits_append_inj (by omega) (by omega) (List.cons.inj h).2
  obtain ⟨hhour, h⟩ := digits_append_inj (by omega) (by omega) (List.cons.inj h).2
  obtain ⟨hminute, h⟩ := digits_append_inj (by omega) (by omega) (List.cons.inj h).2
  obtain ⟨hsecond, h⟩ := digits_append_inj (by omega) (by omega) (List.cons.inj h).2
  obtain ⟨hmilli, -⟩ := digits_append_inj (by omega) (by omega) (List.cons.inj h).2
  have hdate : d = d' := by
    obtain ⟨y, m, n⟩ := d
    obtain ⟨y', m', n'⟩ := d'
    dsimp only at *
    rw [hy, show m = m' by omega, show n = n' by omega]
  have hsame : t / 86400000 = t' / 86400000 := by rw [← hdays, ← hdays', hdate]
  omega

/-- Four digits of the year make 24 characters. -/
theorem length_isoChars (t : Int) :
    (isoChars t).length =
      if 0 ≤ (CivilDate.ofMillis t).year ∧ (CivilDate.ofMillis t).year ≤ 9999 then 24 else 27 := by
  unfold isoChars
  simp only [List.length_append, List.length_cons, length_digits, length_isoYear, List.length_nil]
  split <;> rfl
