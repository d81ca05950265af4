import Folio.Calendar.Pattern
import Mathlib.Data.List.SplitBy

/-! Date patterns by their runs. A pattern is read as parts, tokens and characters that stand for themselves, which are
found run by run before any date is written; so what a token writes is never read as a pattern. -/
namespace Folio.Date

namespace Token

/-- The token as it stands in a pattern. -/
def spelling : Token → List Char
  | .year => "YYYY".toList
  | .shortYear => "YY".toList
  | .monthName => "MMMM".toList
  | .shortMonthName => "MMM".toList
  | .paddedMonth => "MM".toList
  | .month => "M".toList
  | .paddedDay => "DD".toList
  | .day => "D".toList

end Token

/-- What a pattern is made of: tokens, and characters that are no part of one. -/
inductive Part where
  | token (t : Token)
  | literal (c : Char)
  deriving DecidableEq, Repr

namespace Part

def write (date : Date) (locale : Locale) : Part → List Char
  | .token t => t.write date locale
  | .literal c => [c]

/-- The part as it stands in a pattern. -/
def spelling : Part → List Char
  | .token t => t.spelling
  | .literal c => [c]

/-- The parts that `n` equal characters in a row are read as. -/
def ofEqual (c : Char) (n : Nat) : List Part :=
  if c = 'Y' then
    List.replicate (n / 4) (.token .year) ++ (if 2 ≤ n % 4 then [.token .shortYear] else []) ++
      (if n % 2 = 1 then [.literal 'Y'] else [])
  else if c = 'M' then
    List.replicate (n / 4) (.token .monthName) ++
      match n % 4 with
      | 3 => [.token .shortMonthName]
      | 2 => [.token .paddedMonth]
      | 1 => [.token .month]
      | _ => []
  else if c = 'D' then
    List.replicate (n / 2) (.token .paddedDay) ++ (if n % 2 = 1 then [.token .day] else [])
  else List.replicate n (.literal c)

/-- The parts that a run of equal characters is read as. -/
def ofRun : List Char → List Part
  | [] => []
  | c :: rest => ofEqual c (rest.length + 1)

/-- How many equal characters a run is read by. -/
def width (c : Char) : Nat :=
  if c = 'Y' ∨ c = 'M' then 4 else if c = 'D' then 2 else 1

/-- The part that a run is read by, as long as it has so many characters. -/
def longest (c : Char) : Part :=
  if c = 'Y' then .token .year else if c = 'M' then .token .monthName else if c = 'D' then .token .paddedDay
  else .literal c

theorem letter_cases (c : Char) : c = 'Y' ∨ c = 'M' ∨ c = 'D' ∨ c ≠ 'Y' ∧ c ≠ 'M' ∧ c ≠ 'D' := by
  by_cases hy : c = 'Y' <;> by_cases hm : c = 'M' <;> by_cases hd : c = 'D' <;> simp [*]

theorem width_pos (c : Char) : 0 < width c := by
  rw [width]
  split
  · decide
  · split <;> decide

theorem spelling_longest (c : Char) : (longest c).spelling = List.replicate (width c) c := by
  rcases letter_cases c with rfl | rfl | rfl | ⟨hy, hm, hd⟩
  · rfl
  · rfl
  · rfl
  · simp [longest, width, spelling, hy, hm, hd]

theorem ofEqual_add (c : Char) (n : Nat) : ofEqual c (n + width c) = longest c :: ofEqual c n := by
  rcases letter_cases c with rfl | rfl | rfl | ⟨hy, hm, hd⟩
  · have parity : (n + 4) % 2 = n % 2 := by omega
    simp [ofEqual, longest, width, parity, Nat.add_div_right, List.replicate_succ]
  · simp [ofEqual, longest, width, Nat.add_div_right, List.replicate_succ]
  · simp [ofEqual, longest, width, Nat.add_div_right, List.replicate_succ]
  · simp [ofEqual, longest, width, hy, hm, hd, List.replicate_succ]

/-- Up to its last few characters a run is read by its longest part. -/
theorem induction_run {c : Char} {motive : Nat → Prop} (short : ∀ n, n < width c → motive n)
    (longer : ∀ n, motive n → motive (n + width c)) (n : Nat) : motive n := by
  induction n using Nat.strong_induction_on with
  | _ n ih =>
    by_cases h : n < width c
    · exact short n h
    · have whole : n - width c + width c = n := Nat.sub_add_cancel (Nat.le_of_not_lt h)
      have pos := width_pos c
      exact whole ▸ longer _ (ih _ (by omega))

theorem spelling_short {c : Char} {n : Nat} (h : n < width c) :
    (ofEqual c n).flatMap spelling = List.replicate n c := by
  rcases letter_cases c with rfl | rfl | rfl | ⟨hy, hm, hd⟩
  · match n, h with
    | 0, _ | 1, _ | 2, _ | 3, _ => rfl
  · match n, h with
    | 0, _ | 1, _ | 2, _ | 3, _ => rfl
  · match n, h with
    | 0, _ | 1, _ => rfl
  · obtain rfl : n = 0 := by simpa [width, hy, hm, hd] using h
    simp [ofEqual]

/-- The parts of a run stand in the pattern one after the other. -/
theorem spelling_ofEqual (c : Char) (n : Nat) : (ofEqual c n).flatMap spelling = List.replicate n c := by
  induction n using induction_run (c := c) with
  | short n h => exact spelling_short h
  | longer n ih =>
    rw [ofEqual_add, List.flatMap_cons, spelling_longest, ih, List.replicate_append_replicate, Nat.add_comm]

theorem ofRun_replicate (c : Char) (n : Nat) : ofRun (List.replicate n c) = ofEqual c n := by
  cases n with
  | zero => rcases letter_cases c with rfl | rfl | rfl | ⟨hy, hm, hd⟩ <;> simp [ofRun, ofEqual, *]
  | succ n => rw [List.replicate_succ, ofRun, List.length_replicate]

end Part

/-- Neighbours that are equal all the way are one character again and again. -/
theorem exists_replicate_of_isChain {run : List Char} (equal : run.IsChain fun a b => a == b) (filled : run ≠ []) :
    ∃ c n, run = List.replicate (n + 1) c := by
  obtain ⟨c, tail, rfl⟩ := List.exists_cons_of_ne_nil filled
  have same : tail = List.replicate tail.length c := by
    simpa [List.isChain_cons_eq_iff_eq_replicate] using equal
  exact ⟨c, tail.length, by rw [List.replicate_succ, ← same]⟩

section Write

variable {date : Date} {locale : Locale} {rest : List Char} {c : Char} {n : Nat}

theorem write_longest (c : Char) (rest : List Char) : write date locale ((Part.longest c).spelling ++ rest) =
    (Part.longest c).write date locale ++ write date locale rest := by
  rcases Part.letter_cases c with rfl | rfl | rfl | ⟨hy, hm, hd⟩
  · rfl
  · rfl
  · rfl
  · simp_all [Part.longest, write, Part.write, Part.spelling]

/-- Where a run ends, its last few characters are read by shorter tokens. -/
theorem write_short (h : n < Part.width c) (ends : rest.head? ≠ some c) :
    write date locale (List.replicate n c ++ rest) =
      (Part.ofEqual c n).flatMap (Part.write date locale) ++ write date locale rest := by
  rcases Part.letter_cases c with rfl | rfl | rfl | ⟨hy, hm, hd⟩
  · match n, h with
    | 0, _ | 1, _ | 2, _ | 3, _ => cases rest <;> simp_all [List.replicate_succ, Part.ofEqual, Part.write, write]
  · match n, h with
    | 0, _ | 1, _ | 2, _ | 3, _ => cases rest <;> simp_all [List.replicate_succ, Part.ofEqual, Part.write, write]
  · match n, h with
    | 0, _ | 1, _ => cases rest <;> simp_all [List.replicate_succ, Part.ofEqual, Part.write, write]
  · obtain rfl : n = 0 := by simpa [Part.width, hy, hm, hd] using h
    simp [Part.ofEqual]

/-- A run is read by itself, whatever it is followed by. -/
theorem write_equal (ends : rest.head? ≠ some c) : write date locale (List.replicate n c ++ rest) =
    (Part.ofEqual c n).flatMap (Part.write date locale) ++ write date locale rest := by
  induction n using Part.induction_run (c := c) with
  | short n h => exact write_short h ends
  | longer n ih =>
    rw [Nat.add_comm, ← List.replicate_append_replicate, ← Part.spelling_longest, List.append_assoc, write_longest, ih,
      Nat.add_comm, Part.ofEqual_add, List.flatMap_cons, List.append_assoc]

/-- Runs that do not go on in one another are read one by one. -/
theorem write_flatten {runs : List (List Char)} (filled : [] ∉ runs)
    (equal : ∀ run ∈ runs, run.IsChain fun a b => a == b)
    (apart : runs.IsChain fun run next => ∃ hr hn, (run.getLast hr == next.head hn) = false) :
    write date locale runs.flatten = runs.flatMap fun run => (Part.ofRun run).flatMap (Part.write date locale) := by
  induction runs with
  | nil => rw [List.flatten_nil, List.flatMap_nil, write]
  | cons run runs ih =>
    rw [List.mem_cons, not_or] at filled
    rw [List.forall_mem_cons] at equal
    rw [List.isChain_cons] at apart
    obtain ⟨c, n, rfl⟩ := exists_replicate_of_isChain equal.1 (Ne.symm filled.1)
    have ends : runs.flatten.head? ≠ some c := by
      cases runs with
      | nil => exact nofun
      | cons next runs =>
        obtain ⟨hr, hn, differ⟩ := apart.1 next rfl
        rw [List.getLast_replicate, beq_eq_false_iff_ne] at differ
        rw [List.flatten_cons, List.head?_append_of_ne_nil _ hn, List.head?_eq_some_head hn]
        exact fun first => differ (Option.some.inj first).symm
    rw [List.flatten_cons, List.flatMap_cons, ← ih filled.2 equal.2 apart.2, write_equal ends, Part.ofRun_replicate]

end Write

example : Part.ofRun "YYYYYYY".toList = [.token .year, .token .shortYear, .literal 'Y'] := by decide

end Folio.Date
