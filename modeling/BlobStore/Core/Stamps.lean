import BlobStore.Lib.Text
import Mathlib.Data.Fin.VecNotation

/-!
# Etags and dates

The texts that the metadata database puts beside a row whenever it changes.
-/

namespace BlobStore

/-- A point in time, as the calendar has it. -/
structure UtcTime where
  weekday : Fin 7
  day : ℕ
  month : Fin 12
  year : ℕ
  hour : ℕ
  minute : ℕ
  second : ℕ

def weekdays : Fin 7 → String := ![ "Mon", "Tue", "Wed", "Thu", "Fri", "Sat", "Sun"]

def months : Fin 12 → String :=
  ![ "Jan", "Feb", "Mar", "Apr", "May", "Jun", "Jul", "Aug", "Sep", "Oct", "Nov", "Dec"]

/-- A number with leading zeros. -/
def padded (width n : ℕ) : String := String.ofList ((Nat.toDigits 10 n).leftpad width '0')

/-- The date of a row. -/
def formatHttpDate (t : UtcTime) : String :=
  weekdays t.weekday ++ ", " ++ padded 2 t.day ++ " " ++ months t.month ++ " " ++ padded 4 t.year ++
    " " ++ padded 2 t.hour ++ ":" ++ padded 2 t.minute ++ ":" ++ padded 2 t.second ++ " GMT"

/-- The etag of a row: the nanoseconds since the epoch in upper-case digits, between quotes. -/
def generateEtag (nanos : ℕ) : String :=
  "\"0x" ++ String.ofList ((Nat.toDigits 16 nanos).map Char.toUpper) ++ "\""

/-- The characters of etags and dates. -/
def isStampChar (c : Char) : Bool := c.isAlphanum || c ∈ [' ', ',', ':', '"']

/-- An etag and a date that the database has put beside a row. -/
def Stamped (etag lastModified : String) : Prop :=
  (∃ nanos, etag = generateEtag nanos) ∧ ∃ t, lastModified = formatHttpDate t

lemma isStampChar_padded (width n : ℕ) : ∀ c ∈ (padded width n).toList, isStampChar c = true := by
  have hdigit : ∀ m < 10, isStampChar (Nat.digitChar m) = true := by decide +kernel
  have hdigits : ∀ c ∈ Nat.toDigits 10 n, isStampChar c = true :=
    Text.forall_mem_toDigits hdigit (by omega) n
  rw [padded, String.toList_ofList, List.leftpad, List.forall_mem_append]
  refine ⟨fun c hc => ?_, hdigits⟩
  rw [List.eq_of_mem_replicate hc]
  decide

lemma isStampChar_formatHttpDate (t : UtcTime) :
    ∀ c ∈ (formatHttpDate t).toList, isStampChar c = true := by
  have hweekday : ∀ d, ∀ c ∈ (weekdays d).toList, isStampChar c = true := by decide +kernel
  have hmonth : ∀ m, ∀ c ∈ (months m).toList, isStampChar c = true := by decide +kernel
  have hcomma : ∀ c ∈ ", ".toList, isStampChar c = true := by decide +kernel
  have hspace : ∀ c ∈ " ".toList, isStampChar c = true := by decide +kernel
  have hcolon : ∀ c ∈ ":".toList, isStampChar c = true := by decide +kernel
  have hzone : ∀ c ∈ " GMT".toList, isStampChar c = true := by decide +kernel
  simp only [formatHttpDate, String.toList_append, List.forall_mem_append]
  have hpadded := isStampChar_padded
  exact ⟨⟨⟨⟨⟨⟨⟨⟨⟨⟨⟨⟨⟨hweekday t.weekday, hcomma⟩, hpadded 2 t.day⟩, hspace⟩, hmonth t.month⟩,
    hspace⟩, hpadded 4 t.year⟩, hspace⟩, hpadded 2 t.hour⟩, hcolon⟩, hpadded 2 t.minute⟩, hcolon⟩,
    hpadded 2 t.second⟩, hzone⟩

lemma isStampChar_generateEtag (nanos : ℕ) :
    ∀ c ∈ (generateEtag nanos).toList, isStampChar c = true := by
  have hdigit : ∀ m < 16, isStampChar (Nat.digitChar m).toUpper = true := by decide +kernel
  have hupper : ∀ c ∈ (Nat.toDigits 16 nanos).map Char.toUpper, isStampChar c = true := by
    rw [List.forall_mem_map]
    exact Text.forall_mem_toDigits hdigit (by omega) nanos
  simp only [generateEtag, String.toList_append, String.toList_ofList, List.forall_mem_append]
  exact ⟨⟨by decide +kernel, hupper⟩, by decide +kernel⟩

/-- Etags and dates are made of harmless characters. -/
lemma Stamped.isStampChar {etag lastModified : String} (h : Stamped etag lastModified) :
    (∀ c ∈ etag.toList, isStampChar c = true) ∧
      ∀ c ∈ lastModified.toList, isStampChar c = true := by
  obtain ⟨⟨nanos, rfl⟩, t, rfl⟩ := h
  exact ⟨isStampChar_generateEtag nanos, isStampChar_formatHttpDate t⟩

end BlobStore
