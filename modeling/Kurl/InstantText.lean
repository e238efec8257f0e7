import Kurl.DateText
import Kurl.Wire

/-!
# Kurl — the text of an instant (RFC 3339)

`chrono`'s `to_rfc3339` for an instant in UTC: the date, the time to the second, as many digits of
the fraction as are needed in steps of three, and the offset. A reader of RFC 3339 takes it back
(`readRfc3339_toRfc3339`), in the years for which that format has four digits. In the other years
the text begins with a sign, and is none.

The reader goes from left to right, and each part has a lemma with the rest of the text as a
variable (`readDate_format`, `readTime_format`, `readFraction_format`). It is the format's and not
the repository's: clients are the ones who read this text.
-/

namespace Kurl

open Lib

namespace DateTime

/-! ## Writing -/

/-- `SecondsFormat::AutoSi` -/
def formatFraction (nanos : Nat) : List Char :=
  if nanos = 0 then []
  else if nanos % 1000000 = 0 then '.' :: zeroPad 3 (nanos / 1000000)
  else if nanos % 1000 = 0 then '.' :: zeroPad 6 (nanos / 1000)
  else '.' :: zeroPad 9 nanos

/-- The time of a day with its offset. A leap second is a second 60. -/
def formatTime (second nanos : Nat) : List Char :=
  zeroPad 2 (second / 3600) ++ ':' :: (zeroPad 2 (second / 60 % 60) ++
    ':' :: (zeroPad 2 (second % 60 + nanos / 1000000000) ++
      (formatFraction (nanos % 1000000000) ++ ['+', '0', '0', ':', '0', '0'])))

/-- `to_rfc3339` -/
def toRfc3339 (t : UtcDateTime) : String :=
  String.ofList ((NaiveDate.format (t.timestamp / 86400)).toList ++
    'T' :: formatTime (t.timestamp % 86400).toNat t.subsecNanos.toNat)

/-! ## Reading -/

/-- A number of exactly so many digits. -/
def fixedNumber (width : Nat) (text : List Char) : Option (Nat × List Char) :=
  if (text.take width).length = width ∧ (text.take width).all Char.isDigit then
    some (Nat.ofDigitChars 10 (text.take width) 0, text.drop width)
  else none

def literal (c : Char) : List Char → Option (List Char)
  | d :: text => if d = c then some text else none
  | [] => none

/-- A fraction of up to nine digits, in nanoseconds. -/
def readFraction : List Char → Option (Nat × List Char)
  | '.' :: text =>
    let digits := text.takeWhile Char.isDigit
    if 0 < digits.length ∧ digits.length ≤ 9 then
      some (Nat.ofDigitChars 10 digits 0 * 10 ^ (9 - digits.length), text.drop digits.length)
    else none
  | text => some (0, text)

def readDate (text : List Char) : Option (NaiveDate × List Char) := do
  let (year, text) ← fixedNumber 4 text
  let text ← literal '-' text
  let (month, text) ← fixedNumber 2 text
  let text ← literal '-' text
  let (day, text) ← fixedNumber 2 text
  (NaiveDate.fromYmdOpt year month day).map fun date => (date, text)

/-- The time as seconds since midnight and nanoseconds, up to the end of the text. -/
def readTime (text : List Char) : Option (Nat × Nat) := do
  let (hour, text) ← fixedNumber 2 text
  let text ← literal ':' text
  let (minute, text) ← fixedNumber 2 text
  let text ← literal ':' text
  let (second, text) ← fixedNumber 2 text
  let (nanos, text) ← readFraction text
  if (hour < 24 ∧ minute < 60 ∧ second < 60) ∧ text = ['+', '0', '0', ':', '0', '0'] then
    some (hour * 3600 + minute * 60 + second, nanos)
  else none

def ofNanos (nanos : Int) : Option DateTime :=
  if h : nanos ≤ maxUtc ∧ minUtc ≤ nanos then some ⟨nanos, h.2, h.1⟩ else none

/-- A text in RFC 3339 with the offset `+00:00`, but for leap seconds. -/
def readRfc3339 (s : String) : Option DateTime := do
  let (date, text) ← readDate s.toList
  let text ← literal 'T' text
  let (second, nanos) ← readTime text
  ofNanos ((date * 86400 + second) * secondNanos + nanos)

/-! ## Reading what was written -/

theorem fixedNumber_zeroPad_append {width n : Nat} (hpos : 0 < width) (hn : n < 10 ^ width)
    (rest : List Char) : fixedNumber width (zeroPad width n ++ rest) = some (n, rest) := by
  have hlength := length_zeroPad hpos hn
  have htake : (zeroPad width n ++ rest).take width = zeroPad width n := List.take_left' hlength
  have hdigits : (zeroPad width n).all Char.isDigit = true := List.all_eq_true.mpr isDigit_zeroPad
  unfold fixedNumber
  rw [htake, if_pos ⟨hlength, hdigits⟩, ofDigitChars_zeroPad, List.drop_left' hlength]

/-- A sign is no digit. -/
theorem fixedNumber_cons_of_not_isDigit {c : Char} (hc : c.isDigit = false) (width : Nat)
    (rest : List Char) : fixedNumber (width + 1) (c :: rest) = none := by
  unfold fixedNumber
  rw [if_neg]
  rintro ⟨-, hall⟩
  rw [List.take_succ_cons, List.all_cons, hc] at hall
  cases hall

theorem literal_cons (c : Char) (text : List Char) : literal c (c :: text) = some text :=
  if_pos rfl

/-- Three, six or nine digits stand for the fraction that they were taken from. -/
theorem readFraction_digits {width n : Nat} (hpos : 0 < width) (hwidth : width ≤ 9)
    (hn : n < 10 ^ width) {rest : List Char} (hrest : ∀ c ∈ rest.head?, c.isDigit = false) :
    readFraction ('.' :: (zeroPad width n ++ rest)) = some (n * 10 ^ (9 - width), rest) := by
  have hlength := length_zeroPad hpos hn
  have hrun : (zeroPad width n ++ rest).takeWhile Char.isDigit = zeroPad width n := by
    rw [List.takeWhile_append_of_pos isDigit_zeroPad]
    cases rest with
    | nil => rw [List.takeWhile_nil, List.append_nil]
    | cons c rest =>
      rw [List.takeWhile_cons_of_neg (by simp [hrest c rfl]), List.append_nil]
  simp only [readFraction, hrun, hlength]
  rw [if_pos ⟨hpos, hwidth⟩, ofDigitChars_zeroPad, List.drop_left' hlength]

theorem readFraction_format {nanos : Nat} (h : nanos < 1000000000) :
    readFraction (formatFraction nanos ++ ['+', '0', '0', ':', '0', '0']) =
      some (nanos, ['+', '0', '0', ':', '0', '0']) := by
  have hplus : ∀ c ∈ (['+', '0', '0', ':', '0', '0'] : List Char).head?, c.isDigit = false := by
    intro c hc
    obtain rfl : '+' = c := Option.some.inj hc
    rfl
  unfold formatFraction
  split
  · next hzero =>
    rw [hzero]
    rfl
  split
  · next hmillis =>
    rw [List.cons_append, readFraction_digits (by decide) (by decide) (by omega) hplus]
    have hback : nanos / 1000000 * 10 ^ (9 - 3) = nanos := by omega
    rw [hback]
  split
  · next hmicros =>
    rw [List.cons_append, readFraction_digits (by decide) (by decide) (by omega) hplus]
    have hback : nanos / 1000 * 10 ^ (9 - 6) = nanos := by omega
    rw [hback]
  · rw [List.cons_append, readFraction_digits (by decide) (by decide) (by omega) hplus]
    have hback : nanos * 10 ^ (9 - 9) = nanos := by omega
    rw [hback]

theorem readTime_format {second nanos : Nat} (hsecond : second < 86400)
    (hnanos : nanos < 1000000000) :
    readTime (formatTime second nanos) = some (second, nanos) := by
  have hhour : second / 3600 < 10 ^ 2 := by omega
  have hminute : second / 60 % 60 < 10 ^ 2 := by omega
  have hrest : second % 60 < 10 ^ 2 := by omega
  have hwhole : second % 60 + nanos / 1000000000 = second % 60 := by omega
  have hfraction : nanos % 1000000000 = nanos := by omega
  have htwo : 0 < 2 := by decide
  unfold readTime formatTime
  rw [hwhole, hfraction]
  simp only [fixedNumber_zeroPad_append htwo hhour, fixedNumber_zeroPad_append htwo hminute,
    fixedNumber_zeroPad_append htwo hrest, literal_cons, readFraction_format hnanos,
    Option.bind_eq_bind, Option.bind_some]
  rw [if_pos ⟨by omega, trivial⟩]
  have hback : second / 3600 * 3600 + second / 60 % 60 * 60 + second % 60 = second := by omega
  rw [hback]

/-- A date is read back in the years of four digits. -/
theorem readDate_format {d : NaiveDate}
    (h : NaiveDate.minYear ≤ (CivilDate.ofDays d).year ∧
      (CivilDate.ofDays d).year ≤ NaiveDate.maxYear) (rest : List Char) :
    readDate ((NaiveDate.format d).toList ++ rest) =
      if 0 ≤ (CivilDate.ofDays d).year ∧ (CivilDate.ofDays d).year ≤ 9999 then some (d, rest)
      else none := by
  have hmonth : (CivilDate.ofDays d).month < 10 ^ 2 := by
    have hle := (CivilDate.ofDays d).month_mem.2
    omega
  have hday : (CivilDate.ofDays d).day < 10 ^ 2 := by
    have hle := (CivilDate.ofDays d).day_mem.2
    have hlength : daysInMonth (CivilDate.ofDays d).year (CivilDate.ofDays d).month ≤ 31 := by
      unfold daysInMonth
      split_ifs <;> decide
    omega
  have htwo : 0 < 2 := by decide
  unfold NaiveDate.format NaiveDate.formatYear
  simp only [String.toList_ofList]
  split
  · next hfour =>
    have hyear : (CivilDate.ofDays d).year.toNat < 10 ^ 4 := by omega
    have hsign : (((CivilDate.ofDays d).year.toNat : Nat) : Int) = (CivilDate.ofDays d).year :=
      Int.toNat_of_nonneg hfour.1
    unfold readDate
    simp only [List.append_assoc, List.cons_append,
      fixedNumber_zeroPad_append (show 0 < 4 by decide) hyear,
      fixedNumber_zeroPad_append htwo hmonth, fixedNumber_zeroPad_append htwo hday, literal_cons,
      Option.bind_eq_bind, Option.bind_some, hsign]
    rw [NaiveDate.fromYmdOpt_eq h, CivilDate.toDays_ofDays]
    rfl
  · unfold readDate
    split
    · rw [List.cons_append, List.cons_append, fixedNumber_cons_of_not_isDigit (by decide)]
      rfl
    · rw [List.cons_append, List.cons_append, fixedNumber_cons_of_not_isDigit (by decide)]
      rfl

/-- **An instant is read back from its text**, in the years 0 to 9999 and in no other. -/
theorem readRfc3339_toRfc3339 (t : DateTime) :
    readRfc3339 (toRfc3339 t.toUtc) =
      if 0 ≤ (CivilDate.ofDays t.dateNaive).year ∧ (CivilDate.ofDays t.dateNaive).year ≤ 9999 then
        some t
      else none := by
  have hdate : t.toUtc.timestamp / 86400 = t.dateNaive := by
    show t.nanos / 1000000000 / 86400 = (t.nanos / 86400000000000 : Int)
    omega
  have hsecond : (t.toUtc.timestamp % 86400).toNat < 86400 := by omega
  have hnanos : t.toUtc.subsecNanos.toNat < 1000000000 := by
    show (t.nanos % 1000000000).toNat < 1000000000
    omega
  unfold readRfc3339 toRfc3339
  rw [String.toList_ofList, hdate, readDate_format t.year_dateNaive]
  split
  · simp only [Option.bind_eq_bind, Option.bind_some, literal_cons, readTime_format hsecond hnanos]
    -- the parts make up the instant
    have hparts : (t.dateNaive * 86400 + ((t.toUtc.timestamp % 86400).toNat : Int)) * secondNanos +
        (t.toUtc.subsecNanos.toNat : Int) = t.nanos := by
      show (t.nanos / 86400000000000 * 86400 + ((t.nanos / 1000000000 % 86400).toNat : Int)) *
        1000000000 + ((t.nanos % 1000000000).toNat : Int) = t.nanos
      omega
    rw [hparts, ofNanos, dif_pos ⟨t.upper, t.lower⟩]
  · rfl

end DateTime

end Kurl
