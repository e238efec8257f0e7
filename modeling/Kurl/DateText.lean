import Kurl.Lib.Calendar
import Kurl.Lib.Decimal
import Kurl.Time

/-!
# Kurl — the text of a date (`%Y-%m-%d`)

`chrono`'s `format` and `NaiveDate::parse_from_str` for the one format string that the repository
uses. The text is a year of four digits, with a sign and perhaps more digits outside the years 0 to
9999, and a month and a day of two. The parser takes more than that: white space before each number,
as few as one digit, and a sign with any number of digits for the year. Each part is read back where
it ends (`parseYear_append`, `parseTwo_append`); so `parseFromStr_format`.

Writing is injective (`format_inj`) and reading is not: a day has texts of several lengths, which is
what `Kurl.Analytics.ParseDailyCounts` turns on.
-/

namespace Kurl

open Lib

namespace NaiveDate

/-! ## Writing -/

/-- `%Y` -/
def formatYear (y : Int) : List Char :=
  if 0 ≤ y ∧ y ≤ 9999 then zeroPad 4 y.toNat
  else if 0 ≤ y then '+' :: zeroPad 4 y.toNat
  else '-' :: zeroPad 4 (-y).toNat

/-- `format("%Y-%m-%d")` -/
def format (d : NaiveDate) : String :=
  let date := CivilDate.ofDays d
  String.ofList (formatYear date.year ++ '-' :: (zeroPad 2 date.month ++ '-' :: zeroPad 2 date.day))

/-! ## Reading -/

/-- `char::is_whitespace` -/
def isWhitespace (c : Char) : Bool :=
  let n := c.toNat
  (9 ≤ n ∧ n ≤ 13) ∨ n = 0x20 ∨ n = 0x85 ∨ n = 0xA0 ∨ n = 0x1680 ∨ (0x2000 ≤ n ∧ n ≤ 0x200A) ∨
    n = 0x2028 ∨ n = 0x2029 ∨ n = 0x202F ∨ n = 0x205F ∨ n = 0x3000

/-- A number of at most `width` digits that fits an `i64`. -/
def number (width : Nat) (text : List Char) : Option (Nat × List Char) :=
  (scanNumber width text).filter fun r => r.1 ≤ i64Max

/-- `%Y`: a sign lifts the limit of four digits. -/
def parseYear (text : List Char) : Option (Int × List Char) :=
  match text.dropWhile isWhitespace with
  | '-' :: text => (number text.length text).map fun r => (-(r.1 : Int), r.2)
  | '+' :: text => (number text.length text).map fun r => ((r.1 : Int), r.2)
  | text => (number 4 text).map fun r => ((r.1 : Int), r.2)

/-- `%m` and `%d` -/
def parseTwo (text : List Char) : Option (Nat × List Char) :=
  number 2 (text.dropWhile isWhitespace)

/-- The literal `-`. -/
def parseDash : List Char → Option (List Char)
  | '-' :: text => some text
  | _ => none

/-- The years of `NaiveDate`. -/
def minYear : Int := -262143

def maxYear : Int := 262142

/-- `NaiveDate::from_ymd_opt` -/
def fromYmdOpt (year : Int) (month day : Nat) : Option NaiveDate :=
  if h : (minYear ≤ year ∧ year ≤ maxYear) ∧ (1 ≤ month ∧ month ≤ 12) ∧
      (1 ≤ day ∧ day ≤ daysInMonth year month) then
    some (CivilDate.toDays ⟨year, month, day, h.2.1, h.2.2⟩)
  else none

/-- `NaiveDate::parse_from_str(s, "%Y-%m-%d")` -/
def parseFromStr (s : String) : Option NaiveDate := do
  let (year, text) ← parseYear s.toList
  let text ← parseDash text
  let (month, text) ← parseTwo text
  let text ← parseDash text
  let (day, text) ← parseTwo text
  if text = [] then fromYmdOpt year month day else none

/-! ## Reading what was written -/

theorem isWhitespace_of_isDigit {c : Char} (h : c.isDigit = true) : isWhitespace c = false := by
  have hrange : 48 ≤ c.toNat ∧ c.toNat ≤ 57 := by
    simpa [Char.isDigit, UInt32.le_iff_toNat_le] using h
  unfold isWhitespace
  simp only [decide_eq_false_iff_not]
  omega

/-- The digits of a number up to a width are the number. -/
theorem number_zeroPad_append {width w n : Nat} {rest : List Char}
    (hwidth : (zeroPad w n).length ≤ width)
    (hrest : (zeroPad w n).length = width ∨ ∀ c ∈ rest.head?, c.isDigit = false)
    (hn : (n : Int) ≤ i64Max) : number width (zeroPad w n ++ rest) = some (n, rest) := by
  unfold number
  rw [scanNumber_append (zeroPad_ne_nil w n) isDigit_zeroPad hwidth hrest, ofDigitChars_zeroPad,
    Option.filter_some, if_pos (by simpa using hn)]

/-- No white space is skipped before digits. -/
theorem dropWhile_zeroPad_append (w n : Nat) (rest : List Char) :
    (zeroPad w n ++ rest).dropWhile isWhitespace = zeroPad w n ++ rest := by
  obtain ⟨d, digits, hcons⟩ := List.exists_cons_of_ne_nil (zeroPad_ne_nil w n)
  have hd : d.isDigit = true := isDigit_zeroPad d (by rw [hcons]; exact List.mem_cons_self)
  rw [hcons, List.cons_append, List.dropWhile_cons_of_neg (by simp [isWhitespace_of_isDigit hd])]

theorem parseTwo_append {n : Nat} (hn : n < 100) (rest : List Char) :
    parseTwo (zeroPad 2 n ++ rest) = some (n, rest) := by
  have hlength : (zeroPad 2 n).length = 2 := length_zeroPad (by decide) hn
  unfold parseTwo
  rw [dropWhile_zeroPad_append]
  refine number_zeroPad_append hlength.le (.inl hlength) ?_
  unfold i64Max
  omega

/-- A year is read up to the dash. -/
theorem parseYear_append {y : Int} (hy : minYear ≤ y ∧ y ≤ maxYear) (rest : List Char) :
    parseYear (formatYear y ++ '-' :: rest) = some (y, '-' :: rest) := by
  unfold minYear maxYear at hy
  have hdash : ∀ c ∈ ('-' :: rest).head?, c.isDigit = false := by simp
  have hlong (n : Nat) : (zeroPad 4 n).length ≤ (zeroPad 4 n ++ '-' :: rest).length := by simp
  have hfit : (y.toNat : Int) ≤ i64Max ∧ ((-y).toNat : Int) ≤ i64Max := by
    unfold i64Max
    omega
  unfold formatYear
  split
  · next hfour =>
    -- four digits and no sign
    have hlength : (zeroPad 4 y.toNat).length = 4 := length_zeroPad (by decide) (by omega)
    obtain ⟨d, digits, hcons⟩ := List.exists_cons_of_ne_nil (zeroPad_ne_nil 4 y.toNat)
    have hd := ne_of_isDigit (isDigit_zeroPad d (by rw [hcons]; exact List.mem_cons_self))
    unfold parseYear
    rw [dropWhile_zeroPad_append]
    have hread : number 4 (zeroPad 4 y.toNat ++ '-' :: rest) = _ :=
      number_zeroPad_append hlength.le (.inl hlength) hfit.1
    rw [hcons, List.cons_append] at hread ⊢
    split
    · next h => exact absurd (List.cons.inj h).1 hd.1
    · next h => exact absurd (List.cons.inj h).1 hd.2
    · rw [hread, Option.map_some, Int.toNat_of_nonneg hfour.1]
  · split
    · next hpos =>
      have hread := number_zeroPad_append (hlong y.toNat) (.inr hdash) hfit.1
      show (number (zeroPad 4 y.toNat ++ '-' :: rest).length
        (zeroPad 4 y.toNat ++ '-' :: rest)).map (fun r => ((r.1 : Int), r.2)) = _
      rw [hread, Option.map_some, Int.toNat_of_nonneg hpos]
    · next hneg =>
      have hread := number_zeroPad_append (hlong (-y).toNat) (.inr hdash) hfit.2
      show (number (zeroPad 4 (-y).toNat ++ '-' :: rest).length
        (zeroPad 4 (-y).toNat ++ '-' :: rest)).map (fun r => (-(r.1 : Int), r.2)) = _
      rw [hread, Option.map_some, Int.toNat_of_nonneg (by omega), neg_neg]

/-- `from_ymd_opt` on an existing date. -/
theorem fromYmdOpt_eq {date : CivilDate} (h : minYear ≤ date.year ∧ date.year ≤ maxYear) :
    fromYmdOpt date.year date.month date.day = some date.toDays :=
  dif_pos ⟨h, date.month_mem, date.day_mem⟩

/-- **A day is read back from its text.** -/
theorem parseFromStr_format {d : NaiveDate}
    (h : minYear ≤ (CivilDate.ofDays d).year ∧ (CivilDate.ofDays d).year ≤ maxYear) :
    parseFromStr (format d) = some d := by
  have hmonth : (CivilDate.ofDays d).month < 100 := by
    have hle := (CivilDate.ofDays d).month_mem.2
    omega
  have hday : (CivilDate.ofDays d).day < 100 := by
    have hle := (CivilDate.ofDays d).day_mem.2
    have hlength : daysInMonth (CivilDate.ofDays d).year (CivilDate.ofDays d).month ≤ 31 := by
      unfold daysInMonth
      split_ifs <;> decide
    omega
  have hlast := parseTwo_append hday []
  rw [List.append_nil] at hlast
  unfold parseFromStr format
  simp only [String.toList_ofList, parseYear_append h, parseDash, parseTwo_append hmonth, hlast,
    Option.bind_eq_bind, Option.bind_some, if_true]
  rw [fromYmdOpt_eq h, CivilDate.toDays_ofDays]

/-- The text determines the day. -/
theorem format_inj {d d' : NaiveDate}
    (h : minYear ≤ (CivilDate.ofDays d).year ∧ (CivilDate.ofDays d).year ≤ maxYear)
    (h' : minYear ≤ (CivilDate.ofDays d').year ∧ (CivilDate.ofDays d').year ≤ maxYear)
    (heq : format d = format d') : d = d' := by
  have hread := parseFromStr_format h
  rw [heq, parseFromStr_format h'] at hread
  exact (Option.some.inj hread).symm

end NaiveDate

/-- The day of an instant is a `NaiveDate`. -/
theorem DateTime.year_dateNaive (t : DateTime) :
    NaiveDate.minYear ≤ (CivilDate.ofDays t.dateNaive).year ∧
      (CivilDate.ofDays t.dateNaive).year ≤ NaiveDate.maxYear := by
  have hlower := t.lower
  have hupper := t.upper
  rw [CivilDate.year_mem_iff]
  have hfirst : marchDays (NaiveDate.minYear - 1) + 306 - 719468 = -96465292 := by decide
  have hlast : marchDays NaiveDate.maxYear + 306 - 719468 = 95026237 := by decide
  unfold DateTime.dateNaive minUtc maxUtc at *
  omega

/-- The padded and the short text of a day are both read. -/
example : NaiveDate.parseFromStr "2024-01-05" = some 19727 ∧
    NaiveDate.parseFromStr "2024-1-5" = some 19727 ∧ NaiveDate.format 19727 = "2024-01-05" ∧
    NaiveDate.parseFromStr "2023-02-29" = none := by
  decide

end Kurl
