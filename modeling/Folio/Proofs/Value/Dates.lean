import Folio.Namespace
import Folio.Proofs.Decimal.Digits

/-! Dates among values. A text that reads as a date is the text of that date, so that the reading of dates changes
neither what templates write nor what paths lead to. -/
namespace Folio

/-! ### Dashed texts -/

/-- The parts of a text with separators between them are the text. -/
theorem Text.intercalate_splitOn (separator : Char) (text : List Char) :
    [separator].intercalate (splitOn separator text) = text := by
  induction text with
  | nil => rfl
  | cons c rest ih =>
    obtain ⟨part, parts, split⟩ := List.exists_cons_of_ne_nil (splitOn_ne_nil separator rest)
    rw [split] at ih
    by_cases h : c = separator
    · rw [splitOn, if_pos h, split, List.intercalate_cons_cons, ih, h]
      rfl
    · rw [splitOn, if_neg h, split]
      cases parts <;> simp_all [List.intercalate_cons_cons]

namespace Date

variable {text part : List Char} {date : Date} {width : Nat}

theorem padded_of_isNumeral (positive : 0 < width) (h : isNumeral width part = true) :
    Decimal.padded width (Decimal.natOfDigits part) = part := by
  simp only [isNumeral, Bool.and_eq_true, decide_eq_true_eq, List.all_eq_true] at h
  obtain ⟨rfl, digits⟩ := h
  exact Decimal.padded_natOfDigits digits positive

/-- A date is written as the text it was read from. -/
theorem dashed_of_ofDashed? (read : ofDashed? text = some date) : date.dashed = text := by
  rw [ofDashed?] at read
  split at read
  · rename_i day month year parts
    split at read
    · rename_i numerals
      simp only [Bool.and_eq_true] at numerals
      obtain ⟨⟨hd, hm⟩, hy⟩ := numerals
      rw [ofYmd?] at read
      split at read
      -- The calendar has checked the day; that the numerals have their full width makes the text come back.
      · cases read
        rw [dashed, padded_of_isNumeral (by decide) hd, padded_of_isNumeral (by decide) hm,
          padded_of_isNumeral (by decide) hy, ← Text.intercalate_splitOn '-' text, parts]
        simp [List.intercalate_cons_cons]
      · cases read
    · cases read
  · cases read

end Date

/-! ### Values -/

namespace Value

/-- A text either reads as a date, which has that text, or stays as it is. -/
theorem readDates_string (s : String) :
    (∃ date, Date.ofDashed? s.toList = some date ∧ readDates (.string s) = .date date ∧ String.ofList date.dashed = s) ∨
      Date.ofDashed? s.toList = none ∧ readDates (.string s) = .string s := by
  cases read : Date.ofDashed? s.toList with
  | none => exact .inr ⟨rfl, by simp [readDates, read]⟩
  | some date =>
    exact .inl ⟨date, rfl, by simp [readDates, read], by rw [Date.dashed_of_ofDashed? read, String.ofList_toList]⟩

mutual

theorem text_readDates : ∀ value : Value, value.readDates.text = value.text
  | .string s => by
    rcases readDates_string s with ⟨date, -, read, dashed⟩ | ⟨-, read⟩ <;> rw [read]
    simp only [text, dashed]
  | .seq items => by rw [readDates, text, texts_readDatesItems items, text]
  | .map fields => by rw [readDates, text, fieldTexts_readDatesFields fields, text]
  | .undefined | .null | .bool _ | .int _ | .float _ | .date _ => by rw [readDates] <;> nofun

theorem texts_readDatesItems : ∀ items : List Value, texts (readDatesItems items) = texts items
  | [] => by rw [readDatesItems]
  | item :: items => by rw [readDatesItems, texts, text_readDates item, texts_readDatesItems items, texts]

theorem fieldTexts_readDatesFields :
    ∀ fields : List (String × Value), fieldTexts (readDatesFields fields) = fieldTexts fields
  | [] => by rw [readDatesFields]
  | (key, value) :: fields => by
    rw [readDatesFields, fieldTexts, text_readDates value, fieldTexts_readDatesFields fields, fieldTexts]

end

mutual

theorem readDates_readDates : ∀ value : Value, value.readDates.readDates = value.readDates
  | .string s => by
    rcases readDates_string s with ⟨date, -, read, -⟩ | ⟨-, read⟩ <;> simp only [read]
    rw [readDates] <;> nofun
  | .seq items => by rw [readDates, readDates, readDatesItems_readDatesItems items]
  | .map fields => by rw [readDates, readDates, readDatesFields_readDatesFields fields]
  | .undefined | .null | .bool _ | .int _ | .float _ | .date _ => by rw [readDates, readDates] <;> nofun

theorem readDatesItems_readDatesItems :
    ∀ items : List Value, readDatesItems (readDatesItems items) = readDatesItems items
  | [] => by rw [readDatesItems, readDatesItems]
  | item :: items => by
    rw [readDatesItems, readDatesItems, readDates_readDates item, readDatesItems_readDatesItems items]

theorem readDatesFields_readDatesFields :
    ∀ fields : List (String × Value), readDatesFields (readDatesFields fields) = readDatesFields fields
  | [] => by rw [readDatesFields, readDatesFields]
  | (key, value) :: fields => by
    rw [readDatesFields, readDatesFields, readDates_readDates value, readDatesFields_readDatesFields fields]

end

/-- No date is the empty text. -/
theorem isTruthy_readDates (value : Value) : value.readDates.isTruthy = value.isTruthy := by
  cases value with
  | string s =>
    rcases readDates_string s with ⟨date, read, same, -⟩ | ⟨-, same⟩ <;> rw [same]
    have filled : s ≠ "" := by
      rintro rfl
      cases read
    simp [isTruthy, filled]
  | seq items => cases items <;> simp [readDates, readDatesItems, isTruthy]
  | map fields => cases fields <;> simp [readDates, readDatesFields, isTruthy]
  | _ => rw [readDates] <;> nofun

theorem isUndefined_readDates (value : Value) : value.readDates.isUndefined = value.isUndefined := by
  cases value with
  | string s => rcases readDates_string s with ⟨_, -, same, -⟩ | ⟨-, same⟩ <;> simp [same, isUndefined]
  | _ => simp [readDates, isUndefined]

theorem segment?_readDates (value : Value) (segment : String) :
    value.readDates.segment? segment = (value.segment? segment).map readDates := by
  cases value with
  | string s => rcases readDates_string s with ⟨_, -, same, -⟩ | ⟨-, same⟩ <;> simp [same, segment?]
  | seq items => cases h : index? segment.toList <;> simp [readDates, segment?, readDatesItems_eq_map, h]
  | map fields => rw [readDates, segment?, readDatesFields_eq_mapValues, Fields.find?_mapValues, segment?]
  | _ => simp [readDates, segment?]

theorem formatDate_readDates (value : Value) (pattern : List Char) (locale : Locale) :
    value.readDates.formatDate pattern locale = value.formatDate pattern locale := by
  cases value with
  | string s =>
    rcases readDates_string s with ⟨date, read, same, -⟩ | ⟨-, same⟩ <;> rw [same]
    simp [formatDate, read]
  | seq items => simpa [readDates, formatDate] using text_readDates (.seq items)
  | map fields => simpa [readDates, formatDate] using text_readDates (.map fields)
  | _ => rw [readDates] <;> nofun

end Value

/-! ### Namespaces -/

namespace Namespace

theorem get?_readDates (ns : Namespace) (name : String) : ns.readDates.get? name = (ns.get? name).map Value.readDates :=
  Fields.find?_mapValues ..

theorem descend_readDates (value : Value) (path : List String) :
    descend value.readDates path = (descend value path).map Value.readDates := by
  induction path generalizing value with
  | nil => rfl
  | cons segment path ih =>
    simp only [descend, List.foldlM_cons, Value.segment?_readDates] at ih ⊢
    cases value.segment? segment with
    | none => rfl
    | some part => exact ih part

theorem at?_readDates (ns : Namespace) (path : String) : ns.readDates.at? path = (ns.at? path).map Value.readDates := by
  rw [at?, at?]
  split
  · rfl
  · rename_i name rest _
    rw [get?_readDates]
    cases ns.get? name with
    | none => rfl
    | some value => exact descend_readDates value rest

theorem hasValueAt_readDates (ns : Namespace) (path : String) : ns.readDates.hasValueAt path = ns.hasValueAt path := by
  rw [hasValueAt, hasValueAt, at?_readDates, Option.any_map]
  simp only [Value.isUndefined_readDates]

end Namespace

/-- The reading of dates cannot be told from outside: text, truth, parts and written dates are those of the value as it
was, to read the dates again changes nothing, and the paths with a value are the same. -/
theorem readDates_unobservable :
    (∀ value : Value, value.readDates.text = value.text ∧ value.readDates.isTruthy = value.isTruthy ∧
      (∀ segment, value.readDates.segment? segment = (value.segment? segment).map Value.readDates) ∧
      (∀ pattern locale, value.readDates.formatDate pattern locale = value.formatDate pattern locale) ∧
      value.readDates.readDates = value.readDates) ∧
    ∀ (ns : Namespace) (path : String), ns.readDates.hasValueAt path = ns.hasValueAt path :=
  ⟨fun value => ⟨value.text_readDates, value.isTruthy_readDates, value.segment?_readDates, value.formatDate_readDates,
    value.readDates_readDates⟩, Namespace.hasValueAt_readDates⟩

end Folio
