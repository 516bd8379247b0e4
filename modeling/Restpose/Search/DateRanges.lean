import Restpose.Core.OrderedCodes
import Restpose.Indexing.Indexers
import Restpose.Json.Integers
import Restpose.Schema.Queries
import Restpose.Search.RangeCalls

/-!
# Ranges of dates

A date is stored as the code of its year, which may have any length, and one
byte each for the month and the day.  The codes of years are in order, but one
of them can begin with another, and then the byte of the month is compared with
a byte of the longer code.
-/

namespace Restpose.Search

open Indexing Config Json List Libraries

/-! ## Dates as they are written -/

/-- A date as it is written, with a month and a day that can be. -/
structure WrittenDate where
  negative : Bool
  yearDigits : List (Fin 10)
  monthDigits : List (Fin 10)
  dayDigits : List (Fin 10)
  year_ne_nil : yearDigits ≠ []
  month_ne_nil : monthDigits ≠ []
  day_ne_nil : dayDigits ≠ []
  month_range : 1 ≤ digitsFrom 0 monthDigits ∧ digitsFrom 0 monthDigits ≤ 12
  day_range : 1 ≤ digitsFrom 0 dayDigits ∧ digitsFrom 0 dayDigits ≤ 31

namespace WrittenDate

variable (date : WrittenDate)

def year : ℤ :=
  integerValue date.negative date.yearDigits

def month : ℕ :=
  digitsFrom 0 date.monthDigits

def day : ℕ :=
  digitsFrom 0 date.dayDigits

/-- The date in the order of the calendar. -/
def key : ℤ ×ₗ (ℕ ×ₗ ℕ) :=
  toLex (date.year, toLex (date.month, date.day))

/-- `year-month-day`. -/
def text : Bytes :=
  integerToken date.negative date.yearDigits ++
    45 :: (integerToken false date.monthDigits ++
      45 :: integerToken false date.dayDigits)

/-- The bytes for the month and the day. -/
def dayBytes : Bytes :=
  [Fin.ofNat 256 (32 + date.month), Fin.ofNat 256 (32 + date.day)]

/-- The code of the year. -/
def yearCode [Libraries] : Bytes :=
  Libraries.sortableSerialise (Libraries.doubleOfInt date.year)

/-- The code of the date. -/
def code [Libraries] : Bytes :=
  date.yearCode ++ date.dayBytes

end WrittenDate

/-- What dates need of the libraries: that integers are read up to the dash or
the end, to doubles with the codes of the integers (`-0` is read to another
double than `0`, with the same code), that small ones have themselves as floor,
and that the codes of integers are in order. -/
structure ReadsDates [Libraries] : Prop where
  reads : ∀ (negative : Bool) (digits : List (Fin 10)), digits ≠ [] →
    ∀ rest : Bytes, rest = [] ∨ rest.head? = some 45 →
      (Libraries.strtod (integerToken negative digits ++ rest)).2 = rest ∧
        Libraries.sortableSerialise
            (Libraries.strtod (integerToken negative digits ++ rest)).1 =
          Libraries.sortableSerialise
            (Libraries.doubleOfInt (integerValue negative digits))
  floors : ∀ digits : List (Fin 10), digits ≠ [] → digitsFrom 0 digits ≤ 31 →
    ∀ rest : Bytes, rest = [] ∨ rest.head? = some 45 →
      Libraries.floorInt
          (Libraries.strtod (integerToken false digits ++ rest)).1 =
        digitsFrom 0 digits
  ordered : Monotone fun number : ℤ =>
    Libraries.sortableSerialise (Libraries.doubleOfInt number)

/-! ## The query -/

/-- `DateFieldConfig::query`. -/
def dateQuery [Libraries] (slot : ℕ) (qtype : Bytes) (value : Json) :
    Except Thrown MultiValueRangeSource := do
  if qtype ≠ ascii "range" then throw (queryTypeError qtype "date")
  liftInvalid (value.checkArray "filter value")
  if value.size ≠ 2 then
    throw (.invalid (ascii "Date field range must have exactly two points"))
  let start ← (parseDate (value.item 0)).mapError .invalid
  let stop ← (parseDate (value.item 1)).mapError .invalid
  return ⟨slot, 0x3FF0000000000000#64, start, stop⟩

/-! ## Reading dates -/

theorem decimal_digit :
    ∀ digit : Fin 10, decimal digit = [Fin.ofNat 256 (48 + digit.val)] := by
  decide

/-- The sign of an integer. -/
def signToken (negative : Bool) : Bytes :=
  if negative then [45] else []

theorem integerToken_eq (negative : Bool) (digits : List (Fin 10)) :
    integerToken negative digits =
      signToken negative ++ digits.map fun digit => Fin.ofNat 256 (48 + digit.val) := by
  rw [integerToken]
  apply congrArg₂
  · rfl
  · induction digits with
    | nil => rfl
    | cons digit digits ih =>
      simp only [bind, pure, flatMap_cons, flatMap_append, map_cons,
        decimal_digit] at ih ⊢
      rw [ih]
      simp

theorem ne_zero_of_mem_integerToken {negative : Bool} {digits : List (Fin 10)}
    {byte : Byte} (hbyte : byte ∈ integerToken negative digits) : byte ≠ 0 := by
  rw [integerToken_eq, mem_append, mem_map] at hbyte
  rcases hbyte with hsign | ⟨digit, -, rfl⟩
  · cases negative with
    | false => cases hsign
    | true =>
      rw [mem_singleton.mp hsign]
      decide
  · revert digit
    decide

section Reading

variable [Libraries]

theorem parseDate_text (hlibraries : ReadsDates) (date : WrittenDate) :
    parseDate (.string date.text) = .ok date.code := by
  have hnonempty : date.text ≠ [] := by
    simp [WrittenDate.text]
  have hcstring : cString date.text = date.text := by
    apply takeWhile_eq_self_iff.mpr
    intro byte hbyte
    simp only [WrittenDate.text, mem_append, mem_cons] at hbyte
    rw [decide_eq_true_eq]
    rcases hbyte with hbyte | rfl | hbyte | rfl | hbyte
    · exact ne_zero_of_mem_integerToken hbyte
    · decide
    · exact ne_zero_of_mem_integerToken hbyte
    · decide
    · exact ne_zero_of_mem_integerToken hbyte
  have hdash : ∀ rest : Bytes, skipDash (45 :: rest) = rest := fun _ => rfl
  obtain ⟨hyear, hcode⟩ := hlibraries.reads date.negative date.yearDigits date.year_ne_nil
    (45 :: (integerToken false date.monthDigits ++
      45 :: integerToken false date.dayDigits))
    (Or.inr rfl)
  change (strtod date.text).2 = _ at hyear
  change _ = date.yearCode at hcode
  have hmonth := (hlibraries.reads false date.monthDigits date.month_ne_nil
    (45 :: integerToken false date.dayDigits) (Or.inr rfl)).1
  have hmonthRange : 1 ≤ date.month ∧ date.month ≤ 12 := date.month_range
  have hdayRange : 1 ≤ date.day ∧ date.day ≤ 31 := date.day_range
  have hmonthFloor : floorInt (strtod (integerToken false date.monthDigits ++
      45 :: integerToken false date.dayDigits)).1 = date.month :=
    hlibraries.floors date.monthDigits date.month_ne_nil
      (by exact hmonthRange.2.trans (by decide))
      _ (Or.inr rfl)
  have hdayFloor : floorInt (strtod (integerToken false date.dayDigits)).1 =
      date.day := by
    have hfloor := hlibraries.floors date.dayDigits date.day_ne_nil hdayRange.2 []
      (Or.inl rfl)
    rwa [append_nil] at hfloor
  have hmonthValid : ¬((date.month : ℤ) ≤ 0 ∨ 12 < (date.month : ℤ)) := by omega
  have hdayValid : ¬((date.day : ℤ) ≤ 0 ∨ 31 < (date.day : ℤ)) := by omega
  simp only [parseDate, if_neg hnonempty, hcstring, hyear, hdash, hmonthFloor, hmonth,
    hdayFloor, if_neg hmonthValid, if_neg hdayValid]
  rw [WrittenDate.code, ← hcode]
  rfl

theorem dateQuery_text (hlibraries : ReadsDates) (slot : ℕ) (start stop : WrittenDate) :
    dateQuery slot (ascii "range") (.array [.string start.text, .string stop.text]) =
      .ok ⟨slot, 0x3FF0000000000000#64, start.code, stop.code⟩ := by
  have hstart := parseDate_text hlibraries start
  have hstop := parseDate_text hlibraries stop
  change (do
    let start ← (parseDate (.string start.text)).mapError Thrown.invalid
    let stop ← (parseDate (.string stop.text)).mapError Thrown.invalid
    return (⟨slot, 0x3FF0000000000000#64, start, stop⟩ : MultiValueRangeSource)) = _
  rw [hstart, hstop]
  rfl

end Reading

/-! ## The order of the codes -/

namespace WrittenDate

/-- The codes compare as the dates do. -/
def KeepsOrder [Libraries] (left right : WrittenDate) : Prop :=
  (left.code < right.code ↔ left.key < right.key) ∧
    (right.code < left.code ↔ right.key < left.key)

/-- If the code of the later year begins with that of the earlier one, the bytes
for the month and the day of the earlier date are less than what comes after it
in the code of the later date. -/
def Separated [Libraries] (earlier later : WrittenDate) : Prop :=
  earlier.year < later.year → ∀ rest,
    later.yearCode = earlier.yearCode ++ rest →
      earlier.dayBytes < rest ++ later.dayBytes

theorem dayBytes_lt_iff (left right : WrittenDate) :
    left.dayBytes < right.dayBytes ↔
      toLex (left.month, left.day) < toLex (right.month, right.day) := by
  have hleftMonth : left.month ≤ 12 := left.month_range.2
  have hrightMonth : right.month ≤ 12 := right.month_range.2
  have hleftDay : left.day ≤ 31 := left.day_range.2
  have hrightDay : right.day ≤ 31 := right.day_range.2
  have hbyte : ∀ first second : ℕ, first ≤ 31 → second ≤ 31 →
      ((Fin.ofNat 256 (32 + first) < Fin.ofNat 256 (32 + second) ↔ first < second) ∧
        (Fin.ofNat 256 (32 + first) = Fin.ofNat 256 (32 + second) ↔ first = second)) := by
    intro first second hfirst hsecond
    rw [Fin.lt_def, Fin.ext_iff, Fin.val_ofNat, Fin.val_ofNat]
    omega
  have hmonth := hbyte left.month right.month (by omega) (by omega)
  have hday := hbyte left.day right.day hleftDay hrightDay
  rw [dayBytes, dayBytes, cons_lt_cons_iff, cons_lt_cons_iff,
    hmonth.1, hmonth.2, hday.1, hday.2, Prod.Lex.toLex_lt_toLex]
  simp

section Order

variable {left right : WrittenDate}

theorem key_lt_iff : left.key < right.key ↔
    left.year < right.year ∨ left.year = right.year ∧
      toLex (left.month, left.day) < toLex (right.month, right.day) :=
  Prod.Lex.toLex_lt_toLex

variable [Libraries]

theorem code_lt_iff_of_year_eq (hyear : left.year = right.year) :
    left.code < right.code ↔ left.key < right.key := by
  have hcode : left.yearCode = right.yearCode := by
    rw [yearCode, yearCode, hyear]
  rw [code, code, hcode, append_lt_append_iff, dayBytes_lt_iff, key_lt_iff]
  simp [hyear]

theorem code_lt_iff_of_year_lt (hlibraries : ReadsDates)
    (hyear : left.year < right.year) :
    left.code < right.code ↔ left.Separated right := by
  have hle : left.yearCode ≤ right.yearCode := hlibraries.ordered hyear.le
  rw [code, code, append_lt_append_iff_of_le hle]
  exact ⟨fun hall _ => hall, fun hseparated => hseparated hyear⟩

theorem keepsOrder_of_year_lt (hlibraries : ReadsDates) (hyear : left.year < right.year) :
    left.KeepsOrder right ↔ left.Separated right := by
  have hkey : left.key < right.key := key_lt_iff.mpr (Or.inl hyear)
  rw [KeepsOrder, ← code_lt_iff_of_year_lt hlibraries hyear]
  constructor
  · exact fun hkeeps => hkeeps.1.mpr hkey
  · intro hcode
    exact ⟨iff_of_true hcode hkey, iff_of_false hcode.asymm hkey.asymm⟩

theorem KeepsOrder.symm (hkeeps : left.KeepsOrder right) :
    right.KeepsOrder left :=
  ⟨hkeeps.2, hkeeps.1⟩

/-- The codes of two dates compare as the dates do if and only if they are
separated in either order. -/
theorem keepsOrder_iff (hlibraries : ReadsDates) (left right : WrittenDate) :
    left.KeepsOrder right ↔ left.Separated right ∧ right.Separated left := by
  rcases lt_trichotomy left.year right.year with hyear | hyear | hyear
  · rw [keepsOrder_of_year_lt hlibraries hyear]
    exact ⟨fun hseparated => ⟨hseparated, fun hback => absurd hback hyear.asymm⟩,
      And.left⟩
  · apply iff_of_true
    · exact ⟨code_lt_iff_of_year_eq hyear, code_lt_iff_of_year_eq hyear.symm⟩
    · exact ⟨fun hlt => absurd hyear hlt.ne, fun hlt => absurd hyear hlt.ne'⟩
  · have hkeeps : left.KeepsOrder right ↔ right.KeepsOrder left :=
      ⟨KeepsOrder.symm, KeepsOrder.symm⟩
    rw [hkeeps, keepsOrder_of_year_lt hlibraries hyear]
    exact ⟨fun hseparated => ⟨fun hback => absurd hback hyear.asymm, hseparated⟩,
      And.right⟩

end Order

variable [Libraries]

theorem code_between_iff {start stop date : WrittenDate} (hstart : start.KeepsOrder date)
    (hstop : date.KeepsOrder stop) :
    start.code ≤ date.code ∧ date.code ≤ stop.code ↔
      start.key ≤ date.key ∧ date.key ≤ stop.key := by
  rw [← not_lt, ← not_lt, ← not_lt, ← not_lt, hstart.2, hstop.2]

/-- The dates of a document as the values of a slot. -/
def codes (dates : List WrittenDate) : Finset Bytes :=
  (dates.map fun date => date.code).toFinset

theorem inRange_codes_iff {source : MultiValueRangeSource} {start stop : WrittenDate}
    (hstart : source.startVal = start.code) (hstop : source.endVal = stop.code)
    {dates : List WrittenDate}
    (hkeeps : ∀ date ∈ dates, start.KeepsOrder date ∧ date.KeepsOrder stop) (docid : ℕ) :
    source.InRange (docid, codes dates) ↔
      ∃ date ∈ dates, start.key ≤ date.key ∧ date.key ≤ stop.key := by
  rw [MultiValueRangeSource.InRange, hstart, hstop]
  constructor
  · rintro ⟨value, hvalue, hbetween⟩
    obtain ⟨date, hdate, rfl⟩ := mem_map.mp (mem_toFinset.mp hvalue)
    obtain ⟨hfirst, hlast⟩ := hkeeps date hdate
    exact ⟨date, hdate, (code_between_iff hfirst hlast).mp hbetween⟩
  · rintro ⟨date, hdate, hbetween⟩
    obtain ⟨hfirst, hlast⟩ := hkeeps date hdate
    exact ⟨date.code, mem_toFinset.mpr (mem_map_of_mem hdate),
      (code_between_iff hfirst hlast).mpr hbetween⟩

/-- The codes of two dates compare as the dates do if ranges between them have
the right one of them in. -/
theorem keepsOrder_of_between {left right : WrittenDate}
    (hbetween : ∀ start ∈ [left, right], ∀ stop ∈ [left, right], ∀ date ∈ [left, right],
      start.code ≤ date.code ∧ date.code ≤ stop.code ↔
        start.key ≤ date.key ∧ date.key ≤ stop.key) :
    left.KeepsOrder right := by
  -- A range from a date to another has the first one in, if it is not empty.
  have hle : ∀ start ∈ [left, right], ∀ stop ∈ [left, right],
      (start.code ≤ stop.code ↔ start.key ≤ stop.key) := by
    intro start hstart stop hstop
    have hfirst := hbetween start hstart stop hstop start hstart
    simpa using hfirst
  constructor
  · rw [← not_le, ← not_le, hle right (by simp) left (by simp)]
  · rw [← not_le, ← not_le, hle left (by simp) right (by simp)]

/-- The query for a range finds exactly the documents with a date in it. -/
def Finds (slot : ℕ) (start stop : WrittenDate) (dates : List WrittenDate) :
    Prop :=
  ∃ source, dateQuery slot (ascii "range")
      (.array [.string start.text, .string stop.text]) = .ok source ∧
    ∀ docid, source.InRange (docid, codes dates) ↔
      ∃ date ∈ dates, start.key ≤ date.key ∧ date.key ≤ stop.key

theorem finds_of_separated (hlibraries : ReadsDates) (slot : ℕ) {start stop : WrittenDate}
    {dates : List WrittenDate}
    (hseparated : ∀ date ∈ dates, (start.Separated date ∧ date.Separated start) ∧
      (date.Separated stop ∧ stop.Separated date)) :
    Finds slot start stop dates := by
  refine ⟨_, dateQuery_text hlibraries slot start stop, ?_⟩
  apply inRange_codes_iff rfl rfl
  intro date hdate
  obtain ⟨hstart, hstop⟩ := hseparated date hdate
  exact ⟨(keepsOrder_iff hlibraries start date).mpr hstart,
    (keepsOrder_iff hlibraries date stop).mpr hstop⟩

theorem Finds.between_iff (hlibraries : ReadsDates) {slot : ℕ}
    {start stop date : WrittenDate} (hfinds : Finds slot start stop [date]) :
    start.code ≤ date.code ∧ date.code ≤ stop.code ↔
      start.key ≤ date.key ∧ date.key ≤ stop.key := by
  obtain ⟨source, hsource, hfound⟩ := hfinds
  rw [dateQuery_text hlibraries, Except.ok.injEq] at hsource
  subst hsource
  have hone := hfound 0
  simpa [MultiValueRangeSource.InRange, codes] using hone

/-- The codes that are made of two written dates compare as the dates do if and
only if the dates are separated.  If the dates of a document are separated from
the ends of a range, the query for the range finds the document if and only if
one of its dates is in the range.  The queries for all ranges between some dates
find exactly the documents with one of these dates in the range if and only if
all these dates are separated. -/
theorem parseDate_keepsOrder_iff (hlibraries : ReadsDates) :
    (∀ left right : WrittenDate,
      parseDate (.string left.text) = .ok left.code ∧
        parseDate (.string right.text) = .ok right.code ∧
        (left.KeepsOrder right ↔
          left.Separated right ∧ right.Separated left)) ∧
      (∀ (slot : ℕ) (start stop : WrittenDate) (dates : List WrittenDate),
        (∀ date ∈ dates, (start.Separated date ∧ date.Separated start) ∧
          (date.Separated stop ∧ stop.Separated date)) →
        Finds slot start stop dates) ∧
      ∀ (slot : ℕ) (known : Set WrittenDate),
        (∀ start ∈ known, ∀ stop ∈ known, ∀ dates : List WrittenDate,
          (∀ date ∈ dates, date ∈ known) → Finds slot start stop dates) ↔
        ∀ left ∈ known, ∀ right ∈ known, left.Separated right := by
  refine ⟨fun left right => ?_, fun slot start stop dates =>
    finds_of_separated hlibraries slot, fun slot known => ⟨?_, ?_⟩⟩
  · exact ⟨parseDate_text hlibraries left, parseDate_text hlibraries right,
      keepsOrder_iff hlibraries left right⟩
  · intro hfinds left hleft right hright
    have hknown : ∀ date ∈ [left, right], date ∈ known := by
      simp [hleft, hright]
    have hkeeps : left.KeepsOrder right := by
      apply keepsOrder_of_between
      intro start hstart stop hstop date hdate
      apply (hfinds start (hknown start hstart) stop (hknown stop hstop) [date]
        ?_).between_iff
        hlibraries
      simp [hknown date hdate]
    exact ((keepsOrder_iff hlibraries left right).mp hkeeps).1
  · intro hseparated start hstart stop hstop dates hdates
    apply finds_of_separated hlibraries
    intro date hdate
    have hdate := hdates date hdate
    exact ⟨⟨hseparated start hstart date hdate, hseparated date hdate start hstart⟩,
      hseparated date hdate stop hstop, hseparated stop hstop date hdate⟩

end WrittenDate

/-! ## Codes of several lengths -/

/-- Codes for integers that are in order and do not end with a zero byte.  Those
from 1792 to 2047 are the codes that `sortable_serialise` has for them. -/
def integerCode (number : ℤ) : Bytes :=
  if number < 1792 then List.replicate (1792 - number).toNat 1 ++ [2]
  else if number = 1792 then [0xcf]
  else if number ≤ 2047 then [0xcf, Fin.ofNat 256 (number - 1792).toNat]
  else List.replicate (number - 2047).toNat 0xff

theorem integerCode_lt_succ (number : ℤ) :
    integerCode number < integerCode (number + 1) := by
  rcases lt_trichotomy number 1791 with hlow | rfl | hlow
  · -- One more byte before the last one makes a code smaller.
    have hcount : (1792 - number).toNat = (1792 - (number + 1)).toNat + 1 := by
      omega
    rw [integerCode, integerCode, if_pos (by omega), if_pos (by omega), hcount,
      replicate_succ', append_assoc, append_lt_append_iff]
    decide
  · decide
  · rcases lt_trichotomy number 2047 with hhigh | rfl | hhigh
    · by_cases hfirst : number = 1792
      · subst hfirst
        decide
      · rw [integerCode, integerCode, if_neg (by omega), if_neg hfirst, if_pos hhigh.le,
          if_neg (by omega), if_neg (by omega), if_pos (by omega), cons_lt_cons_iff]
        apply Or.inr
        refine ⟨rfl, cons_lt_cons_iff.mpr (Or.inl ?_)⟩
        rw [Fin.lt_def, Fin.val_ofNat, Fin.val_ofNat]
        omega
    · decide
    · have hcount : (number + 1 - 2047).toNat = (number - 2047).toNat + 1 := by
        omega
      rw [integerCode, integerCode, if_neg (by omega), if_neg (by omega),
        if_neg (by omega), if_neg (by omega), if_neg (by omega), if_neg (by omega),
        hcount, replicate_succ']
      nth_rewrite 1 [← append_nil (replicate _ _)]
      rw [append_lt_append_iff]
      exact nil_lt_cons _ _

theorem strictMono_integerCode : StrictMono integerCode :=
  strictMono_int_of_lt_succ integerCode_lt_succ

/-- Whether there is a sign at the start of a text, the number that the digits
after it stand for, and the text after them. -/
def readInteger (text : Bytes) : Bool × ℕ × Bytes :=
  let negative := decide (text.head? = some 45)
  let rest := if negative then text.tail else text
  let digits := rest.takeWhile fun byte => 48 ≤ byte ∧ byte ≤ 57
  (negative, digits.foldl (fun number byte => number * 10 + (byte.val - 48)) 0,
    rest.dropWhile fun byte => 48 ≤ byte ∧ byte ≤ 57)

/-- The double of an integer of at most 53 bits.  Zero has a sign as well. -/
def integerDouble (negative : Bool) (size : ℕ) : Double :=
  let exponent := if size = 0 then 0 else size.log2 + 1023
  let fraction := if size = 0 then 0 else size * 2 ^ (52 - size.log2) - 2 ^ 52
  BitVec.ofNat 64
    ((if negative then 2 ^ 63 else 0) + exponent * 2 ^ 52 + fraction)

/-- Larger integers are read as the largest one of 53 bits. -/
def bounded (size : ℕ) : ℕ :=
  min size (2 ^ 53 - 1)

/-- Libraries that read integers and have these codes for them. -/
abbrev integerLibraries : Libraries where
  __ := Libraries.plain
  doubleOfInt := fun number =>
    integerDouble (decide (number < 0)) (bounded number.natAbs)
  strtod := fun text =>
    (integerDouble (readInteger text).1 (bounded (readInteger text).2.1),
      (readInteger text).2.2)
  floorInt := Double.truncateInt
  sortableSerialise := fun bits => integerCode bits.truncateInt

theorem value_ofNat {exponent fraction : ℕ} (hexponent : exponent < 2047)
    (hfraction : fraction < 2 ^ 52) (negative : Bool) :
    Double.value (BitVec.ofNat 64
        ((if negative then 2 ^ 63 else 0) + exponent * 2 ^ 52 + fraction)) =
      let sign : ℚ := if negative then -1 else 1
      if exponent = 0 then some (sign * fraction * 2 ^ (-1074 : ℤ))
      else some (sign * (2 ^ 52 + fraction) * 2 ^ ((exponent : ℤ) - 1075)) := by
  generalize hbits : BitVec.ofNat 64
    ((if negative then 2 ^ 63 else 0) + exponent * 2 ^ 52 + fraction) = bits
  have hnat : bits.toNat = (if negative then 2 ^ 63 else 0) + exponent * 2 ^ 52 +
      fraction := by
    rw [← hbits, BitVec.toNat_ofNat]
    cases negative <;> simp <;> omega
  have hsign : bits.msb = negative := by
    rw [BitVec.msb_eq_decide, hnat]
    cases negative <;> simp <;> omega
  have hfirst : (bits.extractLsb' 52 11).toNat = exponent := by
    rw [BitVec.extractLsb'_toNat, hnat, Nat.shiftRight_eq_div_pow]
    cases negative <;> simp <;> omega
  have hsecond : (bits.extractLsb' 0 52).toNat = fraction := by
    rw [BitVec.extractLsb'_toNat, hnat, Nat.shiftRight_eq_div_pow]
    cases negative <;> simp <;> omega
  simp only [Double.value, hsign, hfirst, hsecond, if_neg hexponent.ne]

theorem value_integerDouble {size : ℕ} (hsize : size < 2 ^ 53) (negative : Bool) :
    (integerDouble negative size).value =
      some ((if negative then -1 else 1) * (size : ℚ)) := by
  by_cases hzero : size = 0
  · subst hzero
    exact (value_ofNat (by decide) (by decide) negative).trans (by simp)
  · have hlog : size.log2 ≤ 52 := Nat.lt_succ_iff.mp ((Nat.log2_lt hzero).mpr hsize)
    have hlow : 2 ^ 52 ≤ size * 2 ^ (52 - size.log2) := by
      calc 2 ^ 52 = 2 ^ size.log2 * 2 ^ (52 - size.log2) := by
            rw [← pow_add]
            congr 1
            omega
        _ ≤ size * 2 ^ (52 - size.log2) := Nat.mul_le_mul_right _ (Nat.log2_self_le hzero)
    have hhigh : size * 2 ^ (52 - size.log2) < 2 ^ 53 := by
      calc size * 2 ^ (52 - size.log2)
          < 2 ^ (size.log2 + 1) * 2 ^ (52 - size.log2) :=
            Nat.mul_lt_mul_of_pos_right Nat.lt_log2_self (by positivity)
        _ = 2 ^ 53 := by rw [← pow_add]; congr 1; omega
    have hvalue := value_ofNat (show size.log2 + 1023 < 2047 by omega)
      (show size * 2 ^ (52 - size.log2) - 2 ^ 52 < 2 ^ 52 by omega) negative
    rw [if_neg (Nat.succ_ne_zero _), Nat.cast_sub hlow] at hvalue
    simp only [integerDouble, if_neg hzero, hvalue]
    have hpower : (2 : ℚ) ^ (52 - size.log2) * 2 ^ (((size.log2 + 1023 : ℕ) : ℤ) - 1075) =
        1 := by
      rw [← zpow_natCast, ← zpow_add₀ two_ne_zero, Nat.cast_sub hlog]
      push_cast
      ring_nf
      simp
    rw [Option.some.injEq]
    push_cast at hpower ⊢
    linear_combination (if negative then (-1 : ℚ) else 1) * size * hpower

theorem truncateInt_integerDouble (negative : Bool) (size : ℕ) :
    (integerDouble negative (bounded size)).truncateInt =
      if negative then -(bounded size : ℤ) else bounded size := by
  have hsize : bounded size < 2 ^ 53 := (min_le_right _ _).trans_lt (by decide)
  rw [Double.truncateInt, value_integerDouble hsize]
  cases negative with
  | true =>
    by_cases hzero : bounded size = 0
    · simp [hzero]
    · have hneg : ¬(0 : ℚ) ≤ -(bounded size : ℚ) := by
        simpa using hzero
      simp [hneg, Int.ceil_neg]
  | false => simp

/-- The integers of at most 53 bits. -/
def clamp (number : ℤ) : ℤ :=
  max (-(2 ^ 53 - 1)) (min number (2 ^ 53 - 1))

theorem clamp_eq_self {number : ℤ} (hlow : -2 ^ 53 < number) (hhigh : number < 2 ^ 53) :
    clamp number = number := by
  rw [clamp]
  omega

theorem monotone_clamp : Monotone clamp := by
  intro left right hle
  exact max_le_max le_rfl (min_le_min_right _ hle)

theorem code_doubleOfInt (number : ℤ) :
    integerLibraries.sortableSerialise (integerLibraries.doubleOfInt number) =
      integerCode (clamp number) := by
  change integerCode (integerDouble _ _).truncateInt = _
  rw [truncateInt_integerDouble, clamp, bounded]
  congr 1
  split_ifs with hneg
  all_goals
    rw [decide_eq_true_eq] at hneg
    omega

/-- The byte of a digit. -/
def digitByte (digit : Fin 10) : Byte :=
  Fin.ofNat 256 (48 + digit.val)

theorem digitByte_spec : ∀ digit : Fin 10, (48 ≤ digitByte digit ∧ digitByte digit ≤ 57) ∧
      (digitByte digit).val - 48 = digit.val ∧ digitByte digit ≠ 45 := by
  decide

theorem foldl_digitByte (digits : List (Fin 10)) (start : ℕ) :
    (digits.map digitByte).foldl
        (fun number byte => number * 10 + (byte.val - 48)) start =
      digitsFrom start digits := by
  induction digits generalizing start with
  | nil => rfl
  | cons digit digits ih =>
    rw [map_cons, foldl_cons, ih, (digitByte_spec digit).2.1]
    rfl

/-- The digits of an integer are read up to a dash or the end. -/
theorem readInteger_integerToken (negative : Bool) {digits : List (Fin 10)}
    (hdigits : digits ≠ []) {rest : Bytes} (hrest : rest = [] ∨ rest.head? = some 45) :
    readInteger (integerToken negative digits ++ rest) =
      (negative, digitsFrom 0 digits, rest) := by
  have hstops : rest.takeWhile (fun byte => 48 ≤ byte ∧ byte ≤ 57) = [] ∧
      rest.dropWhile (fun byte => 48 ≤ byte ∧ byte ≤ 57) = rest := by
    cases rest with
    | nil => exact ⟨rfl, rfl⟩
    | cons byte rest =>
      have hbyte : byte = 45 := by simpa using hrest
      rw [hbyte]
      exact ⟨takeWhile_cons_of_neg (by decide), dropWhile_cons_of_neg (by decide)⟩
  have hall : ∀ byte ∈ digits.map digitByte,
      decide (48 ≤ byte ∧ byte ≤ 57) = true := by
    intro byte hbyte
    obtain ⟨digit, -, rfl⟩ := mem_map.mp hbyte
    exact decide_eq_true (digitByte_spec digit).1
  have htake : (digits.map digitByte ++ rest).takeWhile
      (fun byte => 48 ≤ byte ∧ byte ≤ 57) = digits.map digitByte := by
    rw [takeWhile_append_of_pos hall, hstops.1, append_nil]
  have hdrop : (digits.map digitByte ++ rest).dropWhile
      (fun byte => 48 ≤ byte ∧ byte ≤ 57) = rest := by
    rw [dropWhile_append_of_pos hall, hstops.2]
  have hhead : (digits.map digitByte ++ rest).head? ≠ some 45 := by
    cases digits with
    | nil => exact absurd rfl hdigits
    | cons digit digits => simpa using (digitByte_spec digit).2.2
  have htoken : integerToken negative digits =
      signToken negative ++ digits.map digitByte := integerToken_eq negative digits
  rw [htoken, append_assoc, readInteger, ← foldl_digitByte digits 0]
  cases negative with
  | true => simp only [signToken, if_true, cons_append, nil_append,
      head?_cons, decide_true, tail_cons, htake, hdrop]
  | false => simp only [signToken, Bool.false_eq_true, if_false,
      nil_append, hhead, decide_false, htake, hdrop]

theorem readsDates_integerLibraries : @ReadsDates integerLibraries := by
  apply @ReadsDates.mk integerLibraries
  · intro negative digits hdigits rest hrest
    have hread := readInteger_integerToken negative hdigits hrest
    rw [code_doubleOfInt]
    change (readInteger _).2.2 = rest ∧
      integerCode (integerDouble (readInteger _).1
        (bounded (readInteger _).2.1)).truncateInt = _
    rw [hread, truncateInt_integerDouble, integerValue, clamp, bounded]
    refine ⟨rfl, congrArg _ ?_⟩
    dsimp only
    split_ifs
    all_goals omega
  · intro digits hdigits hsmall rest hrest
    have hread := readInteger_integerToken false hdigits hrest
    change (integerDouble (readInteger _).1 (bounded (readInteger _).2.1)).truncateInt = _
    rw [hread, truncateInt_integerDouble, bounded, min_eq_left (by dsimp only; omega)]
    rfl
  · intro left right hle
    simp only [code_doubleOfInt]
    exact strictMono_integerCode.monotone (monotone_clamp hle)

/-- 1792-2-1. -/
def february1792 : WrittenDate :=
  ⟨false, [1, 7, 9, 2], [2], [1], by decide, by decide, by decide, by decide,
    by decide⟩

/-- 1793-1-1. -/
def january1793 : WrittenDate :=
  ⟨false, [1, 7, 9, 3], [1], [1], by decide, by decide, by decide, by decide,
    by decide⟩

/-- 1793-12-31. -/
def december1793 : WrittenDate :=
  ⟨false, [1, 7, 9, 3], [1, 2], [3, 1], by decide, by decide, by decide,
    by decide, by decide⟩

namespace WrittenDate

/-- The first and the last day of a year keep their order, and the ranges between
them find the right documents. -/
theorem parseDate_keepsOrder_1793 : ∃ _ : Libraries,
    january1793.KeepsOrder december1793 ∧
      Finds 3 january1793 december1793 [january1793] ∧
      ∀ start ∈ ({january1793, december1793} : Set WrittenDate),
        ∀ stop ∈ ({january1793, december1793} : Set WrittenDate),
          Finds 3 start stop [december1793, january1793] := by
  have hyear : ∀ (left right : WrittenDate), left.year = right.year →
      @Separated integerLibraries left right :=
    fun left right heq hlt => absurd heq hlt.ne
  have hspec := @parseDate_keepsOrder_iff integerLibraries
    readsDates_integerLibraries
  refine ⟨integerLibraries, ?_, ?_, ?_⟩
  · exact (hspec.1 january1793 december1793).2.2.mpr
      ⟨hyear _ _ rfl, hyear _ _ rfl⟩
  · apply hspec.2.1
    intro date hdate
    rw [List.mem_singleton.mp hdate]
    exact ⟨⟨hyear _ _ rfl, hyear _ _ rfl⟩, hyear _ _ rfl, hyear _ _ rfl⟩
  · intro start hstart stop hstop
    apply (hspec.2.2 3 {january1793, december1793}).mpr _ start hstart stop hstop
    · simp
    · intro left hleft right hright
      apply hyear
      rcases hleft with rfl | rfl <;> rcases hright with rfl | rfl <;> rfl

/-- In February 1792 the code of the date is larger than in January 1793, and the
range from the one to the end of 1793 does not have the other in it. -/
theorem parseDate_swaps_1792 : ∃ _ : Libraries,
    ReadsDates ∧
      (∀ left right : ℤ, -2 ^ 53 < left → left < right → right < 2 ^ 53 →
        Libraries.sortableSerialise (Libraries.doubleOfInt left) <
          Libraries.sortableSerialise (Libraries.doubleOfInt right)) ∧
      february1792.yearCode = [0xcf] ∧ january1793.yearCode = [0xcf, 1] ∧
      Libraries.sortableSerialise (Libraries.doubleOfInt 1825) = [0xcf, 0x21] ∧
      february1792.key < january1793.key ∧
      january1793.code < february1792.code ∧
      ∃ source, dateQuery 3 (ascii "range")
          (.array [.string february1792.text, .string december1793.text]) =
            .ok source ∧
        ¬source.InRange (1, codes [january1793]) := by
  have hearlier : @yearCode february1792 integerLibraries = [0xcf] :=
    (code_doubleOfInt _).trans (by decide)
  have hlater : @yearCode january1793 integerLibraries = [0xcf, 1] :=
    (code_doubleOfInt _).trans (by decide)
  have hswapped : @code january1793 integerLibraries <
      @code february1792 integerLibraries := by
    rw [code, code, hearlier, hlater]
    decide
  refine ⟨integerLibraries, readsDates_integerLibraries, ?_, hearlier, hlater,
    (code_doubleOfInt _).trans (by decide), ?_, hswapped, ?_⟩
  · intro left right hlow hlt hhigh
    rw [code_doubleOfInt, code_doubleOfInt, clamp_eq_self hlow (by omega),
      clamp_eq_self (by omega) hhigh]
    exact strictMono_integerCode hlt
  · exact key_lt_iff.mpr (Or.inl (by decide))
  · refine ⟨_, @dateQuery_text integerLibraries readsDates_integerLibraries 3
      february1792 december1793, ?_⟩
    rintro ⟨value, hvalue, hstart, -⟩
    rw [List.mem_singleton.mp (List.mem_toFinset.mp hvalue)] at hstart
    exact hstart.not_gt hswapped

end WrittenDate

end Restpose.Search
