import BlobStore.Core.Stamps
import BlobStore.Lib.Digits
import Mathlib.Data.List.Lex
import Mathlib.Tactic.IntervalCases

/-!
# Timestamps

The text of a point in time in the format of RFC 3339, as `now_iso` writes it. The fraction of the
second has no zeros at its end, and is left out if it is zero. So a time that is another one with
the last digits cut off comes after it in the order of texts, and all others are in order.
-/

namespace BlobStore

open Digits

/-! ### Points in time -/

def isLeapYear (y : ℕ) : Bool := y % 4 = 0 && (y % 100 ≠ 0 || y % 400 = 0)

/-- The days of a month. -/
def daysIn (year : ℕ) : ℕ → ℕ
  | 2                        => if isLeapYear year then 29 else 28
  | 4 | 6 | 9 | 11           => 30
  | 1 | 3 | 5 | 7 | 8 | 10 | 12 => 31
  | _                        => 0

/-- The days from the start of the year 0. -/
def daysBeforeYear : ℕ → ℕ
  | 0     => 0
  | y + 1 => daysBeforeYear y + if isLeapYear y then 366 else 365

/-- The days from the start of a year. -/
def daysBeforeMonth (year : ℕ) : ℕ → ℕ
  | 0     => 0
  | m + 1 => daysBeforeMonth year m + daysIn year m

/-- A point in time in UTC, in a year of four digits. -/
structure Instant where
  year : ℕ
  month : ℕ
  day : ℕ
  hour : ℕ
  minute : ℕ
  second : ℕ
  nanosecond : ℕ
  year_le : year ≤ 9999
  month_le : month ≤ 12
  day_pos : 0 < day
  day_le : day ≤ daysIn year month
  hour_lt : hour < 24
  minute_lt : minute < 60
  second_lt : second < 60
  nanosecond_lt : nanosecond < 10 ^ 9

namespace Instant

variable (t u : Instant)

def days : ℕ := daysBeforeYear t.year + daysBeforeMonth t.year t.month + (t.day - 1)

def seconds : ℕ := 86400 * t.days + 3600 * t.hour + 60 * t.minute + t.second

/-- The nanoseconds from the start of the year 0. -/
def nanos : ℕ := 10 ^ 9 * t.seconds + t.nanosecond

/-- What a clock and a calendar show. -/
def fields : List ℕ := [t.year, t.month, t.day, t.hour, t.minute, t.second]

variable {t u}

lemma daysBeforeMonth_mono {year m m' : ℕ} (h : m ≤ m') :
    daysBeforeMonth year m ≤ daysBeforeMonth year m' := by
  induction h with
  | refl => exact Nat.le_refl _
  | step _ ih => exact ih.trans (Nat.le_add_right _ _)

lemma daysBeforeYear_mono {y y' : ℕ} (h : y ≤ y') : daysBeforeYear y ≤ daysBeforeYear y' := by
  induction h with
  | refl => exact Nat.le_refl _
  | step _ ih => exact ih.trans (Nat.le_add_right _ _)

/-- The months make a year. -/
lemma daysBeforeYear_succ (y : ℕ) :
    daysBeforeYear (y + 1) = daysBeforeYear y + daysBeforeMonth y 13 := by
  rw [daysBeforeYear]
  cases h : isLeapYear y <;> simp [daysBeforeMonth, daysIn, h]

lemma day_lt_month (t : Instant) :
    daysBeforeMonth t.year t.month + (t.day - 1) < daysBeforeMonth t.year (t.month + 1) := by
  have hpos := t.day_pos
  have hle := t.day_le
  rw [daysBeforeMonth]
  omega

lemma days_lt_of_year (h : t.year < u.year) : t.days < u.days := by
  have hday := t.day_lt_month
  have hmonth : daysBeforeMonth t.year (t.month + 1) ≤ daysBeforeMonth t.year 13 :=
    daysBeforeMonth_mono (Nat.succ_le_succ t.month_le)
  have hyear : daysBeforeYear (t.year + 1) ≤ daysBeforeYear u.year := daysBeforeYear_mono h
  rw [daysBeforeYear_succ] at hyear
  unfold days
  omega

lemma days_lt_of_month (hy : t.year = u.year) (h : t.month < u.month) : t.days < u.days := by
  have hday := t.day_lt_month
  have hmonth : daysBeforeMonth t.year (t.month + 1) ≤ daysBeforeMonth t.year u.month :=
    daysBeforeMonth_mono h
  unfold days
  rw [← hy]
  omega

lemma days_lt_of_day (hy : t.year = u.year) (hm : t.month = u.month) (h : t.day < u.day) :
    t.days < u.days := by
  have hpos := t.day_pos
  unfold days
  rw [hy, hm]
  omega

lemma seconds_lt_of_days (h : t.days < u.days) : t.seconds < u.seconds := by
  have h1 := t.hour_lt
  have h2 := t.minute_lt
  have h3 := t.second_lt
  unfold seconds
  omega

lemma seconds_lt_of_fields (h : t.fields < u.fields) : t.seconds < u.seconds := by
  simp only [fields, List.cons_lt_cons_iff, List.not_lt_nil, and_false, or_false] at h
  have hminute := t.minute_lt
  have hsecond := t.second_lt
  rcases h with h | ⟨hy, h | ⟨hm, h | ⟨hd, h⟩⟩⟩
  · exact seconds_lt_of_days (days_lt_of_year h)
  · exact seconds_lt_of_days (days_lt_of_month hy h)
  · exact seconds_lt_of_days (days_lt_of_day hy hm h)
  · have hdays : t.days = u.days := by rw [days, days, hy, hm, hd]
    unfold seconds
    rw [hdays]
    omega

lemma seconds_eq_of_fields (h : t.fields = u.fields) : t.seconds = u.seconds := by
  simp only [fields, List.cons.injEq, and_true] at h
  obtain ⟨hy, hm, hd, hh, hmin, hs⟩ := h
  rw [seconds, seconds, days, days, hy, hm, hd, hh, hmin, hs]

/-- Clock and calendar tell the seconds in their order. -/
lemma seconds_lt_iff : t.seconds < u.seconds ↔ t.fields < u.fields := by
  refine ⟨fun h => ?_, seconds_lt_of_fields⟩
  rcases lt_trichotomy t.fields u.fields with hlt | heq | hgt
  · exact hlt
  · exact absurd (seconds_eq_of_fields heq) h.ne
  · exact absurd (seconds_lt_of_fields hgt) (Nat.lt_asymm h)

lemma seconds_eq_iff : t.seconds = u.seconds ↔ t.fields = u.fields := by
  refine ⟨fun h => ?_, seconds_eq_of_fields⟩
  rcases lt_trichotomy t.fields u.fields with hlt | heq | hgt
  · exact absurd h (seconds_lt_of_fields hlt).ne
  · exact heq
  · exact absurd h (seconds_lt_of_fields hgt).ne'

end Instant

/-! ### Texts -/

/-- The fraction of a second, without zeros at its end. -/
def fraction (nanosecond : ℕ) : String :=
  if nanosecond = 0 then "" else "." ++ String.ofList (strip (padded 9 nanosecond).toList)

/-- The text of the clock in the database. -/
def nowIso (t : Instant) : String :=
  padded 4 t.year ++ "-" ++ padded 2 t.month ++ "-" ++ padded 2 t.day ++ "T" ++ padded 2 t.hour ++
    ":" ++ padded 2 t.minute ++ ":" ++ padded 2 t.second ++ fraction t.nanosecond ++ "Z"

lemma toList_padded {w n : ℕ} (hw : 0 < w) (hn : n < 10 ^ w) : (padded w n).toList = fixed w n := by
  rw [padded, String.toList_ofList]
  induction w generalizing n with
  | zero => omega
  | succ w ih =>
    rcases Nat.lt_or_ge n 10 with hlt | hge
    · rw [Nat.toDigits_of_lt_base hlt, fixed, Nat.div_eq_of_lt hlt, fixed_zero,
        Nat.mod_eq_of_lt hlt]
      rfl
    · have hw' : 0 < w := by
        rcases Nat.eq_zero_or_pos w with rfl | hpos
        · omega
        · exact hpos
      have hdiv : n / 10 < 10 ^ w := by
        rw [pow_succ] at hn
        omega
      rw [Nat.toDigits_of_base_le (by omega) hge, fixed, ← ih hw' hdiv]
      simp [List.leftpad]

/-- What is written behind the seconds. -/
def ending (nanosecond : ℕ) : List Char :=
  if nanosecond = 0 then ['Z'] else '.' :: (strip (fixed 9 nanosecond) ++ ['Z'])

lemma toList_fraction {n : ℕ} (hn : n < 10 ^ 9) : (fraction n).toList ++ ['Z'] = ending n := by
  unfold fraction ending
  split_ifs with h
  · rfl
  · have hdot : ".".toList = ['.'] := rfl
    simp only [String.toList_append, String.toList_ofList, toList_padded (by omega) hn, hdot,
      List.cons_append, List.nil_append]

lemma daysIn_le (year month : ℕ) : daysIn year month ≤ 31 := by
  fun_cases daysIn year month
  all_goals simp

lemma Instant.bounds (t : Instant) : t.year < 10 ^ 4 ∧ t.month < 10 ^ 2 ∧ t.day < 10 ^ 2 ∧
    t.hour < 10 ^ 2 ∧ t.minute < 10 ^ 2 ∧ t.second < 10 ^ 2 := by
  have h1 := t.year_le
  have h2 := t.month_le
  have h3 := t.day_le.trans (daysIn_le _ _)
  have h4 := t.hour_lt
  have h5 := t.minute_lt
  have h6 := t.second_lt
  refine ⟨?_, ?_, ?_, ?_, ?_, ?_⟩ <;> omega

lemma toList_nowIso (t : Instant) : (nowIso t).toList =
    fixed 4 t.year ++ '-' :: (fixed 2 t.month ++ '-' :: (fixed 2 t.day ++ 'T' ::
      (fixed 2 t.hour ++ ':' :: (fixed 2 t.minute ++ ':' :: (fixed 2 t.second ++
        ending t.nanosecond))))) := by
  obtain ⟨h1, h2, h3, h4, h5, h6⟩ := t.bounds
  have hdash : "-".toList = ['-'] := rfl
  have hcolon : ":".toList = [':'] := rfl
  have htee : "T".toList = ['T'] := rfl
  have hzone : "Z".toList = ['Z'] := rfl
  simp only [nowIso, String.toList_append, hdash, hcolon, htee, hzone,
    toList_padded (w := 4) (by omega) h1, toList_padded (w := 2) (by omega) h2,
    toList_padded (w := 2) (by omega) h3, toList_padded (w := 2) (by omega) h4,
    toList_padded (w := 2) (by omega) h5, toList_padded (w := 2) (by omega) h6,
    List.append_assoc, List.cons_append, List.nil_append, ← toList_fraction t.nanosecond_lt]

/-- Texts are compared by the seconds, and then by what is behind them. -/
lemma nowIso_lt_iff {t u : Instant} : nowIso t < nowIso u ↔
    t.seconds < u.seconds ∨ t.seconds = u.seconds ∧ ending t.nanosecond < ending u.nanosecond := by
  obtain ⟨h1, h2, h3, h4, h5, h6⟩ := t.bounds
  obtain ⟨h1', h2', h3', h4', h5', h6'⟩ := u.bounds
  rw [Instant.seconds_lt_iff, Instant.seconds_eq_iff, String.lt_iff_toList_lt, toList_nowIso,
    toList_nowIso, fixed_append_lt_iff h1 h1', List.cons_lt_cons_self, fixed_append_lt_iff h2 h2',
    List.cons_lt_cons_self, fixed_append_lt_iff h3 h3', List.cons_lt_cons_self,
    fixed_append_lt_iff h4 h4', List.cons_lt_cons_self, fixed_append_lt_iff h5 h5',
    List.cons_lt_cons_self, fixed_append_lt_iff h6 h6']
  simp only [Instant.fields, List.cons_lt_cons_iff, List.not_lt_nil, and_false, or_false,
    List.cons.injEq, and_true]
  tauto

lemma ending_lt_iff {n m : ℕ} (hnm : n < m) (hm : m < 10 ^ 9) :
    ending n < ending m ↔ ¬ ∃ k ≤ 9, n = m / 10 ^ k * 10 ^ k := by
  rw [← strip_fixed_prefix_iff hnm hm]
  have hlow : ∀ n, ∀ c ∈ fixed 9 n, '0' ≤ c := forall_mem_fixed (by decide) 9
  have hhigh : ∀ n, ∀ c ∈ fixed 9 n, c < 'Z' := forall_mem_fixed (by decide) 9
  have hcompare := strip_lt_iff (hlow n) (hhigh m) (by simp) (fixed_lt hnm hm) [] []
  unfold ending
  rw [if_neg (by omega : m ≠ 0)]
  split_ifs with hn
  · subst hn
    have hnil : strip (fixed 9 0) = [] := by decide
    refine iff_of_false ?_ (by simp [hnil])
    rw [List.cons_lt_cons_iff]
    rintro (h | ⟨h, -⟩)
    · exact absurd h (by decide)
    · exact absurd h (by decide)
  · rw [List.cons_lt_cons_self, hcompare]

lemma ending_inj {n m : ℕ} (hn : n < 10 ^ 9) (hm : m < 10 ^ 9) (h : ending n = ending m) :
    n = m := by
  have hdot : '.' ≠ 'Z' := by decide
  unfold ending at h
  split_ifs at h with hn0 hm0 hm0
  · rw [hn0, hm0]
  · exact absurd (List.cons.inj h).1.symm hdot
  · exact absurd (List.cons.inj h).1 hdot
  · have hlen : (fixed 9 n).length = (fixed 9 m).length := by simp
    have hstrip : strip (fixed 9 n) = strip (fixed 9 m) :=
      List.append_cancel_right (List.cons.inj h).2
    have hfixed : fixed 9 n = fixed 9 m := strip_inj hlen hstrip
    exact fixed_inj hn hm hfixed

/-- Texts tell points in time apart. -/
lemma nanos_eq_of_nowIso {t u : Instant} (h : nowIso t = nowIso u) : t.nanos = u.nanos := by
  have hlt : ¬ nowIso t < nowIso u := h.not_lt
  have hgt : ¬ nowIso u < nowIso t := h.symm.not_lt
  rw [nowIso_lt_iff] at hlt hgt
  push Not at hlt hgt
  have hseconds : t.seconds = u.seconds := Nat.le_antisymm hgt.1 hlt.1
  have hending : ending t.nanosecond = ending u.nanosecond :=
    le_antisymm (hgt.2 hseconds.symm) (hlt.2 hseconds)
  rw [Instant.nanos, Instant.nanos, hseconds, ending_inj t.nanosecond_lt u.nanosecond_lt hending]

/-- A point in time with the last digits of its fraction cut off. -/
def RoundedDown (t u : Instant) : Prop := ∃ k ≤ 9, t.nanos = u.nanos / 10 ^ k * 10 ^ k

/-- Texts are in the order of the times, unless the earlier time is the later one rounded down. -/
lemma nowIso_lt_of_nanos_lt_iff {t u : Instant} (h : t.nanos < u.nanos) :
    nowIso t < nowIso u ↔ ¬ RoundedDown t u := by
  have ht := t.nanosecond_lt
  have hu := u.nanosecond_lt
  have hround : ∀ k ≤ 9, u.nanos / 10 ^ k * 10 ^ k =
      10 ^ 9 * u.seconds + u.nanosecond / 10 ^ k * 10 ^ k := by
    intro k hk
    unfold Instant.nanos
    interval_cases k <;> omega
  rw [nowIso_lt_iff, RoundedDown]
  unfold Instant.nanos at h
  rcases Nat.lt_or_ge t.seconds u.seconds with hlt | hge
  · refine iff_of_true (.inl hlt) ?_
    rintro ⟨k, hk, heq⟩
    rw [hround k hk, Instant.nanos] at heq
    omega
  · have hseconds : t.seconds = u.seconds := by omega
    have hnano : t.nanosecond < u.nanosecond := by omega
    have hexists : (∃ k ≤ 9, t.nanos = u.nanos / 10 ^ k * 10 ^ k) ↔
        ∃ k ≤ 9, t.nanosecond = u.nanosecond / 10 ^ k * 10 ^ k := by
      refine exists_congr fun k => and_congr_right fun hk => ?_
      rw [hround k hk, Instant.nanos, hseconds]
      omega
    rw [hexists, ending_lt_iff hnano hu]
    simp [hseconds]

lemma nowIso_le_of_nanos_lt_iff {t u : Instant} (h : t.nanos < u.nanos) :
    nowIso t ≤ nowIso u ↔ ¬ RoundedDown t u := by
  have hne : nowIso t ≠ nowIso u := fun heq => h.ne (nanos_eq_of_nowIso heq)
  rw [← nowIso_lt_of_nanos_lt_iff h]
  exact ⟨fun hle => lt_of_le_of_ne hle hne, le_of_lt⟩

end BlobStore
