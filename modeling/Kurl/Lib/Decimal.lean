import Kurl.Lib.Int64
import Mathlib.Data.List.TakeWhile

/-!
# Decimal numerals in texts

The digits of a number are `Nat.toDigits 10` and the number of digits is `Nat.ofDigitChars 10`. Here
are the ways in which programs write and read them:

* `zeroPad` — digits with zeros before them, up to a width;
* `scanNumber` — the number at the beginning of a text, of at most so many digits;
* `parseI64` — a whole text as a signed 64-bit integer.

What was written is read back: `scanNumber_append` and `parseI64_toString`.
-/

namespace Lib

/-! ## Digits -/

theorem isDigit_toDigits {n : Nat} : ∀ c ∈ Nat.toDigits 10 n, c.isDigit = true := fun _ hc =>
  Nat.isDigit_of_mem_toDigits (by decide) (by decide) hc

/-- No digit is a sign. -/
theorem ne_of_isDigit {c : Char} (h : c.isDigit = true) : c ≠ '-' ∧ c ≠ '+' := by
  constructor <;> rintro rfl <;> revert h <;> decide

/-- A number that is not zero has no leading zero. -/
theorem head_toDigits {n : Nat} (hn : 0 < n) : ∀ c ∈ (Nat.toDigits 10 n).head?, c ≠ '0' := by
  -- the first digit of a longer number is that of its tens
  induction n using Nat.strong_induction_on with
  | _ n ih =>
    rw [Nat.toDigits_eq_if (by decide)]
    by_cases hlt : n < 10
    · rw [if_pos hlt]
      rintro c hc rfl
      have hzero : n.digitChar = '0' := by simpa using hc
      exact absurd (Nat.digitChar_eq_zero.mp hzero) hn.ne'
    · rw [if_neg hlt, List.head?_append_of_ne_nil _ Nat.toDigits_ne_nil]
      exact ih (n / 10) (by omega) (by omega)

/-- The digits of `n` after as many zeros as the width asks for. -/
def zeroPad (width n : Nat) : List Char := (Nat.toDigits 10 n).leftpad width '0'

theorem isDigit_zeroPad {width n : Nat} : ∀ c ∈ zeroPad width n, c.isDigit = true := by
  intro c hc
  rcases List.mem_append.mp hc with hzero | hdigit
  · rw [(List.mem_replicate.mp hzero).2]
    decide
  · exact isDigit_toDigits c hdigit

theorem ofDigitChars_zeroPad (width n : Nat) : Nat.ofDigitChars 10 (zeroPad width n) 0 = n := by
  unfold zeroPad List.leftpad
  rw [Nat.ofDigitChars_append, Nat.ofDigitChars_replicate_zero, Nat.mul_zero,
    Nat.ofDigitChars_ten_toDigits]

theorem length_zeroPad {width n : Nat} (hpos : 0 < width) (h : n < 10 ^ width) :
    (zeroPad width n).length = width := by
  have hle := (Nat.length_toDigits_le_iff (by decide) hpos).mpr h
  unfold zeroPad
  rw [List.length_leftpad]
  exact max_eq_left hle

theorem zeroPad_ne_nil (width n : Nat) : zeroPad width n ≠ [] :=
  List.append_ne_nil_of_right_ne_nil _ Nat.toDigits_ne_nil

/-! ## Scanning -/

/-- The longest run of at most `width` digits as a number, and the text after it. -/
def scanNumber (width : Nat) (text : List Char) : Option (Nat × List Char) :=
  let digits := (text.take width).takeWhile Char.isDigit
  if digits = [] then none
  else some (Nat.ofDigitChars 10 digits 0, text.drop digits.length)

/-- **A number is scanned up to its end**: where the width is used up, or where no digit follows. -/
theorem scanNumber_append {width : Nat} {digits rest : List Char} (hne : digits ≠ [])
    (hdigits : ∀ c ∈ digits, c.isDigit = true) (hwidth : digits.length ≤ width)
    (hrest : digits.length = width ∨ ∀ c ∈ rest.head?, c.isDigit = false) :
    scanNumber width (digits ++ rest) = some (Nat.ofDigitChars 10 digits 0, rest) := by
  have hrun : ((digits ++ rest).take width).takeWhile Char.isDigit = digits := by
    rw [List.take_append, List.take_of_length_le hwidth,
      List.takeWhile_append_of_pos hdigits]
    -- nothing of the rest is taken
    suffices hnil : (rest.take (width - digits.length)).takeWhile Char.isDigit = [] by
      rw [hnil, List.append_nil]
    rcases hrest with hfull | hend
    · rw [hfull, Nat.sub_self, List.take_zero, List.takeWhile_nil]
    · cases rest with
      | nil => rw [List.take_nil, List.takeWhile_nil]
      | cons c rest =>
        have hc := hend c rfl
        cases width - digits.length with
        | zero => rw [List.take_zero, List.takeWhile_nil]
        | succ w => rw [List.take_succ_cons, List.takeWhile_cons_of_neg (by simp [hc])]
  unfold scanNumber
  rw [hrun, if_neg hne, List.drop_left]

/-! ## Whole texts -/

/-- A text of digits and nothing else. -/
def parseDigits (text : List Char) : Option Nat :=
  if text ≠ [] ∧ text.all Char.isDigit then some (Nat.ofDigitChars 10 text 0) else none

@[simp] theorem parseDigits_toDigits (n : Nat) : parseDigits (Nat.toDigits 10 n) = some n := by
  unfold parseDigits
  rw [if_pos ⟨Nat.toDigits_ne_nil, List.all_eq_true.mpr isDigit_toDigits⟩,
    Nat.ofDigitChars_ten_toDigits]

/-- An integer in the signed 64-bit range. -/
def checkI64 (n : Int) : Option Int := if i64Min ≤ n ∧ n ≤ i64Max then some n else none

/-- Digits after an optional sign, in the signed 64-bit range. -/
def parseI64 (text : String) : Option Int :=
  match text.toList with
  | '-' :: digits => (parseDigits digits).bind fun n => checkI64 (-(n : Int))
  | '+' :: digits => (parseDigits digits).bind fun n => checkI64 n
  | digits => (parseDigits digits).bind fun n => checkI64 n

theorem checkI64_eq_some {n m : Int} :
    checkI64 n = some m ↔ m = n ∧ i64Min ≤ n ∧ n ≤ i64Max := by
  unfold checkI64
  split
  · next h => exact ⟨fun heq => ⟨(Option.some.inj heq).symm, h⟩, fun ⟨heq, _⟩ => by rw [heq]⟩
  · next h => exact ⟨fun heq => (by cases heq), fun ⟨_, hrange⟩ => absurd hrange h⟩

/-- The text of an integer. -/
theorem toList_toString (n : Int) : (toString n).toList =
    if 0 ≤ n then Nat.toDigits 10 n.toNat else '-' :: Nat.toDigits 10 (-n).toNat := by
  rw [Int.toString_eq_repr, Int.repr_eq_if]
  split <;> simp

/-- A text that begins with a digit has no sign. -/
theorem parseI64_of_digits {text : String} {d : Char} {digits : List Char}
    (htext : text.toList = d :: digits) (hd : d.isDigit = true) :
    parseI64 text = (parseDigits text.toList).bind fun n => checkI64 n := by
  obtain ⟨hminus, hplus⟩ := ne_of_isDigit hd
  unfold parseI64
  rw [htext]
  split
  · next h => exact absurd (List.cons.inj h).1 hminus
  · next h => exact absurd (List.cons.inj h).1 hplus
  · rfl

/-- **A written integer is read back.** -/
theorem parseI64_toString {n : Int} (h : i64Min ≤ n ∧ n ≤ i64Max) :
    parseI64 (toString n) = some n := by
  have htext := toList_toString n
  by_cases hn : 0 ≤ n
  · rw [if_pos hn] at htext
    have hne : Nat.toDigits 10 n.toNat ≠ [] := Nat.toDigits_ne_nil
    obtain ⟨d, digits, hcons⟩ := List.exists_cons_of_ne_nil hne
    have hd := isDigit_toDigits (n := n.toNat) d (by rw [hcons]; exact List.mem_cons_self)
    rw [parseI64_of_digits (htext.trans hcons) hd, htext, parseDigits_toDigits, Option.bind_some,
      Int.toNat_of_nonneg hn]
    exact checkI64_eq_some.mpr ⟨rfl, h⟩
  · rw [if_neg hn] at htext
    unfold parseI64
    rw [htext]
    simp only [parseDigits_toDigits, Option.bind_some]
    rw [Int.toNat_of_nonneg (by omega), neg_neg]
    exact checkI64_eq_some.mpr ⟨rfl, h⟩

end Lib
