import Folio.Proofs.Namespace.Path
import Folio.Proofs.Value.Dates

/-! The fixed format of dates. Every date has one text of the form `DD-MM-YYYY`, which is read as that date, and no
other text is read as a date. -/
namespace Folio

theorem daysInMonth_le (year month : Nat) : daysInMonth year month ≤ 31 := by
  rw [daysInMonth.eq_def]
  split
  · split <;> decide
  all_goals decide

namespace Date

/-! ### Numerals -/

section Numerals

variable {day month year text : List Char} {width : Nat}

theorem isNumeral_iff : isNumeral width text ↔ text.length = width ∧ ∀ c ∈ text, c.isDigit := by
  rw [isNumeral, Bool.and_eq_true, decide_eq_true_eq, List.all_eq_true]

theorem isNumeral_padded {n : Nat} (positive : 0 < width) (h : n < 10 ^ width) :
    isNumeral width (Decimal.padded width n) :=
  isNumeral_iff.2 ⟨Decimal.length_padded positive h, fun _ => Decimal.isDigit_of_mem_padded⟩

theorem hyphen_notMem_of_isNumeral (h : isNumeral width text) : '-' ∉ text :=
  fun m => absurd ((isNumeral_iff.1 h).2 _ m) (by decide)

/-- Numerals with hyphens between them come apart at the hyphens, and what they stand for has to be a day. -/
theorem ofDashed?_numerals (hd : isNumeral 2 day) (hm : isNumeral 2 month) (hy : isNumeral 4 year) :
    ofDashed? (day ++ '-' :: (month ++ '-' :: year)) =
      ofYmd? (Decimal.natOfDigits year) (Decimal.natOfDigits month) (Decimal.natOfDigits day) := by
  have parts : Text.splitOn '-' (day ++ '-' :: (month ++ '-' :: year)) = [day, month, year] := by
    rw [Text.splitOn_append_cons, Text.splitOn_append_cons, Text.splitOn_eq_singleton (hyphen_notMem_of_isNumeral hd),
      Text.splitOn_eq_singleton (hyphen_notMem_of_isNumeral hm),
      Text.splitOn_eq_singleton (hyphen_notMem_of_isNumeral hy)]
    rfl
  rw [ofDashed?, parts]
  simp [hd, hm, hy]

end Numerals

/-! ### Texts of dates -/

variable (date : Date)

theorem dashed_eq : date.dashed = Decimal.padded 2 date.day ++
    '-' :: (Decimal.padded 2 date.month ++ '-' :: Decimal.padded 4 date.year) := by
  simp [dashed]

theorem isNumeral_parts : isNumeral 2 (Decimal.padded 2 date.day) ∧ isNumeral 2 (Decimal.padded 2 date.month) ∧
    isNumeral 4 (Decimal.padded 4 date.year) := by
  obtain ⟨years, -, months, -, days⟩ := date.isDay
  have short := daysInMonth_le date.year date.month
  exact ⟨isNumeral_padded (by decide) (by omega), isNumeral_padded (by decide) (by omega),
    isNumeral_padded (by decide) (by omega)⟩

theorem ofDashed?_dashed : ofDashed? date.dashed = some date := by
  obtain ⟨hd, hm, hy⟩ := date.isNumeral_parts
  rw [dashed_eq, ofDashed?_numerals hd hm hy]
  simp only [Decimal.natOfDigits_padded]
  rw [ofYmd?, dif_pos date.isDay]

theorem write_defaultPattern (locale : Locale) : date.write locale defaultPattern = date.dashed := by
  have characters : defaultPattern = ['D', 'D', '-', 'M', 'M', '-', 'Y', 'Y', 'Y', 'Y'] := by decide
  rw [dashed_eq, characters]
  simp [write, Token.write]

variable {date}

theorem ofDashed?_eq_some_iff {text : List Char} : ofDashed? text = some date ↔ date.dashed = text :=
  ⟨dashed_of_ofDashed?, fun same => same ▸ date.ofDashed?_dashed⟩

theorem isSome_ofDashed?_iff {text : List Char} : (ofDashed? text).isSome ↔ ∃ day month year : List Char,
    text = day ++ '-' :: (month ++ '-' :: year) ∧ (day.length = 2 ∧ month.length = 2 ∧ year.length = 4) ∧
      (∀ c ∈ day ++ month ++ year, c.isDigit) ∧
      IsCalendarDay (Decimal.natOfDigits year) (Decimal.natOfDigits month) (Decimal.natOfDigits day) := by
  constructor
  · intro read
    obtain ⟨date, read⟩ := Option.isSome_iff_exists.1 read
    obtain ⟨hd, hm, hy⟩ := date.isNumeral_parts
    rw [isNumeral_iff] at hd hm hy
    refine ⟨_, _, _, (ofDashed?_eq_some_iff.1 read).symm.trans date.dashed_eq, ⟨hd.1, hm.1, hy.1⟩, ?_, ?_⟩
    · exact List.forall_mem_append.2 ⟨List.forall_mem_append.2 ⟨hd.2, hm.2⟩, hy.2⟩
    · simp only [Decimal.natOfDigits_padded]
      exact date.isDay
  · rintro ⟨day, month, year, rfl, ⟨ld, lm, ly⟩, digits, isDay⟩
    rw [List.forall_mem_append, List.forall_mem_append] at digits
    obtain ⟨⟨hd, hm⟩, hy⟩ := digits
    rw [ofDashed?_numerals (isNumeral_iff.2 ⟨ld, hd⟩) (isNumeral_iff.2 ⟨lm, hm⟩) (isNumeral_iff.2 ⟨ly, hy⟩), ofYmd?,
      dif_pos isDay]
    rfl

/-- Dates and their texts in the fixed format belong to one another: whatever the language is, a date is read from the
text that it is written as and from no other, and it is shown as that text. A text is read just if it is two, two and
four digits with hyphens between them that stand for a day of the calendar. -/
theorem ofDashed?_inverts_write :
    (∀ (date : Date) (locale : Locale), ofDashed? (date.write locale defaultPattern) = some date) ∧
    (∀ (s : String) (date : Date) (locale : Locale),
      ofDashed? s.toList = some date ↔ String.ofList (date.write locale defaultPattern) = s) ∧
    (∀ (date : Date) (locale : Locale), (Value.date date).text = String.ofList (date.write locale defaultPattern)) ∧
    ∀ s : String, (ofDashed? s.toList).isSome ↔ ∃ day month year : List Char,
      s.toList = day ++ '-' :: (month ++ '-' :: year) ∧ (day.length = 2 ∧ month.length = 2 ∧ year.length = 4) ∧
        (∀ c ∈ day ++ month ++ year, c.isDigit) ∧
        IsCalendarDay (Decimal.natOfDigits year) (Decimal.natOfDigits month) (Decimal.natOfDigits day) := by
  refine ⟨fun date locale => ?_, fun s date locale => ?_, fun date locale => ?_, fun s => isSome_ofDashed?_iff⟩
  · rw [write_defaultPattern, ofDashed?_dashed]
  · rw [write_defaultPattern, ofDashed?_eq_some_iff, ← String.toList_inj, String.toList_ofList]
  · rw [write_defaultPattern, Value.text]

/-- Of two years that end a century one is a leap year. -/
example : (ofDashed? "29-02-2000".toList).isSome ∧ ofDashed? "29-02-1900".toList = none := by
  decide

end Date

end Folio
