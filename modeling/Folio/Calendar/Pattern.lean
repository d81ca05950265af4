import Folio.Calendar.Date
import Folio.Calendar.Locale
import Folio.Text.Search

/-! Date patterns and the fixed format `DD-MM-YYYY`. A pattern is read from the left; where several
tokens fit the longest is taken, and what a token writes is never read again. -/
namespace Folio.Date

/-- A part of a pattern that stands for a part of the date. -/
inductive Token where
  | year
  | shortYear
  | monthName
  | shortMonthName
  | paddedMonth
  | month
  | paddedDay
  | day
  deriving DecidableEq, Repr

namespace Token

/-- Writes the token's part of a date. -/
def write (date : Date) (locale : Locale) : Token → List Char
  | .year => Decimal.padded 4 date.year
  | .shortYear => Decimal.padded 2 (date.year % 100)
  | .monthName => (locale.longMonths.getD (date.month - 1) "").toList
  | .shortMonthName => (locale.shortMonths.getD (date.month - 1) "").toList
  | .paddedMonth => Decimal.padded 2 date.month
  | .month => Nat.toDigits 10 date.month
  | .paddedDay => Decimal.padded 2 date.day
  | .day => Nat.toDigits 10 date.day

end Token

/-- Writes a date by a pattern. Characters that are no token are written as they are. -/
def write (date : Date) (locale : Locale) : List Char → List Char
  | 'Y' :: 'Y' :: 'Y' :: 'Y' :: rest => Token.year.write date locale ++ write date locale rest
  | 'Y' :: 'Y' :: rest => Token.shortYear.write date locale ++ write date locale rest
  | 'M' :: 'M' :: 'M' :: 'M' :: rest => Token.monthName.write date locale ++ write date locale rest
  | 'M' :: 'M' :: 'M' :: rest => Token.shortMonthName.write date locale ++ write date locale rest
  | 'M' :: 'M' :: rest => Token.paddedMonth.write date locale ++ write date locale rest
  | 'M' :: rest => Token.month.write date locale ++ write date locale rest
  | 'D' :: 'D' :: rest => Token.paddedDay.write date locale ++ write date locale rest
  | 'D' :: rest => Token.day.write date locale ++ write date locale rest
  | c :: rest => c :: write date locale rest
  | [] => []

/-- The pattern of dates that are written without one. -/
def defaultPattern : List Char :=
  "DD-MM-YYYY".toList

/-- A text of exactly so many digits. -/
def isNumeral (width : Nat) (text : List Char) : Bool :=
  text.length = width && text.all Char.isDigit

/-- Reads exactly `DD-MM-YYYY`; the day has to exist. -/
def ofDashed? (text : List Char) : Option Date :=
  match Text.splitOn '-' text with
  | [day, month, year] =>
    if isNumeral 2 day && isNumeral 2 month && isNumeral 4 year then
      ofYmd? (Decimal.natOfDigits year) (Decimal.natOfDigits month) (Decimal.natOfDigits day)
    else none
  | _ => none

/-- Reads exactly `YYYY-MM-DD`. -/
def ofIso? (text : List Char) : Option Date :=
  match Text.splitOn '-' text with
  | [year, month, day] =>
    if isNumeral 4 year && isNumeral 2 month && isNumeral 2 day then
      ofYmd? (Decimal.natOfDigits year) (Decimal.natOfDigits month) (Decimal.natOfDigits day)
    else none
  | _ => none

end Folio.Date
