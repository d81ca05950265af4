import Folio.Frontmatter
import Mathlib

/-! The division of a text into frontmatter and body. The first line behind the opening one that closes the block
divides the text, and nothing of it is lost: it is the opening line, the block, the closing line and the body, one after
the other. A text with no such line has no frontmatter and is all body. -/
namespace Folio

/-! ### Lines -/

namespace Text

/-- A line of a text, with what stands before and after it. It starts the text or follows a line feed, and it ends with
the next line feed or, if there is none, with the text. -/
structure IsLineIn (text before line after : List Char) : Prop where
  text_eq : text = before ++ line ++ after
  starts : before = [] ∨ before.getLast? = some '\n'
  ends : (∃ content, '\n' ∉ content ∧ line = content ++ ['\n']) ∨ (line ≠ [] ∧ '\n' ∉ line ∧ after = [])

variable {text before line after content : List Char}

theorem lines_cons_of_ne {c : Char} (h : c ≠ '\n') {rest more : List Char} {others : List (List Char)}
    (first : lines rest = more :: others) : lines (c :: rest) = (c :: more) :: others := by
  rw [lines, if_neg h, first]

/-- A line that a line feed ends is the first one. -/
theorem lines_content_append (h : '\n' ∉ content) (after : List Char) :
    lines (content ++ '\n' :: after) = (content ++ ['\n']) :: lines after := by
  induction content with
  | nil => simp [lines]
  | cons c content ih =>
    rw [List.mem_cons, not_or] at h
    exact lines_cons_of_ne (Ne.symm h.1) (ih h.2)

/-- A text without line feeds is one line. -/
theorem lines_eq_singleton (h : '\n' ∉ line) (filled : line ≠ []) : lines line = [line] := by
  induction line with
  | nil => exact absurd rfl filled
  | cons c line ih =>
    rw [List.mem_cons, not_or] at h
    cases line with
    | nil => rw [lines, if_neg (Ne.symm h.1), lines]
    | cons d line => exact lines_cons_of_ne (Ne.symm h.1) (ih h.2 (List.cons_ne_nil _ _))

/-- Behind a line feed the lines start anew. -/
theorem lines_append (h : before = [] ∨ before.getLast? = some '\n') (rest : List Char) :
    lines (before ++ rest) = lines before ++ lines rest := by
  induction before with
  | nil => rfl
  | cons c before ih =>
    have last : (c :: before).getLast? = some '\n' := h.resolve_left (List.cons_ne_nil _ _)
    have tail : before = [] ∨ before.getLast? = some '\n' := by
      cases before with
      | nil => exact .inl rfl
      | cons d before => exact .inr (by rwa [List.getLast?_cons_cons] at last)
    rw [List.cons_append]
    by_cases feed : c = '\n'
    · rw [lines, if_pos feed, lines, if_pos feed, ih tail, List.cons_append]
    · have filled : before ≠ [] := by
        rintro rfl
        exact feed (Option.some.inj last)
      obtain ⟨more, others, first⟩ : ∃ more others, lines before = more :: others := by
        refine List.exists_cons_of_ne_nil fun none => filled ?_
        rw [← flatten_lines before, none, List.flatten_nil]
      rw [lines_cons_of_ne feed first, lines_cons_of_ne feed (by rw [ih tail, first, List.cons_append]),
        List.cons_append]

/-- A text that is not empty is its first line, with or without a line feed, and the rest. -/
theorem lines_cases (filled : text ≠ []) : ('\n' ∉ text ∧ lines text = [text]) ∨
    ∃ content rest, '\n' ∉ content ∧ text = content ++ '\n' :: rest ∧
      lines text = (content ++ ['\n']) :: lines rest := by
  by_cases feed : '\n' ∈ text
  · obtain ⟨content, rest, rfl, free⟩ := List.eq_append_cons_of_mem feed
    exact .inr ⟨content, rest, free, rfl, lines_content_append free rest⟩
  · exact .inl ⟨feed, lines_eq_singleton feed filled⟩

theorem isLineIn_of_lines {earlier later : List (List Char)} (cut : lines text = earlier ++ line :: later) :
    IsLineIn text earlier.flatten line later.flatten := by
  have filled : text ≠ [] := by
    rintro rfl
    exact absurd cut.symm (by simp [lines])
  induction earlier generalizing text with
  | nil =>
    rcases lines_cases filled with ⟨free, alone⟩ | ⟨content, rest, free, rfl, first⟩
    · rw [alone] at cut
      obtain ⟨rfl, rfl⟩ := List.cons.inj cut
      exact ⟨by simp, .inl rfl, .inr ⟨filled, free, rfl⟩⟩
    · rw [first] at cut
      obtain ⟨rfl, rfl⟩ := List.cons.inj cut
      exact ⟨by simp [flatten_lines], .inl rfl, .inl ⟨content, free, rfl⟩⟩
  | cons head earlier ih =>
    rcases lines_cases filled with ⟨free, alone⟩ | ⟨content, rest, free, rfl, first⟩
    · rw [alone] at cut
      exact absurd (List.cons.inj cut).2 (by simp)
    · rw [first] at cut
      obtain ⟨rfl, behind⟩ := List.cons.inj cut
      have more : rest ≠ [] := by
        rintro rfl
        exact absurd behind.symm (by simp [lines])
      obtain ⟨text_eq, starts, ends⟩ := ih behind more
      refine ⟨by simp [text_eq], .inr ?_, ends⟩
      -- What stands before ends as the last line before it does, or as the first one if there is no other.
      rw [List.flatten_cons]
      rcases starts with none | last
      · rw [none, List.append_nil, List.getLast?_concat]
      · rw [List.getLast?_append, last, Option.some_or]

/-- The lines of a text are those that it is cut into. -/
theorem isLineIn_iff : IsLineIn text before line after ↔ ∃ earlier later,
    lines text = earlier ++ line :: later ∧ before = earlier.flatten ∧ after = later.flatten := by
  constructor
  · rintro ⟨rfl, starts, ends⟩
    refine ⟨lines before, lines after, ?_, (flatten_lines before).symm, (flatten_lines after).symm⟩
    rw [List.append_assoc, lines_append starts]
    rcases ends with ⟨content, free, rfl⟩ | ⟨filled, free, rfl⟩
    · rw [List.append_assoc, List.singleton_append, lines_content_append free]
    · rw [List.append_nil, lines_eq_singleton free filled, lines]
  · rintro ⟨earlier, later, cut, rfl, rfl⟩
    exact isLineIn_of_lines cut

/-- Nothing is left of a text just if all of it is blank. -/
theorem isEmpty_trim_iff : (trim text).isEmpty ↔ ∀ c ∈ text, isBlank c := by
  rw [trim, trimEnd, trimStart, List.isEmpty_reverse, List.isEmpty_iff, List.dropWhile_eq_nil_iff]
  constructor
  · intro blank c m
    by_contra solid
    -- What starts with the first character that is not blank is left.
    have left : text.dropWhile isBlank ≠ [] := fun none => solid (List.dropWhile_eq_nil_iff.1 none c m)
    have first := List.head_dropWhile_not isBlank left
    rw [blank _ (List.mem_reverse.2 (List.head_mem left))] at first
    cases first
  · intro blank c m
    exact blank c (List.dropWhile_sublist _ |>.subset (List.mem_reverse.1 m))

end Text

/-! ### Blocks -/

namespace Frontmatter

open Text (IsLineIn isLineIn_iff)

/-- The text starts with a line of dashes. -/
def Opens (text rest : List Char) : Prop :=
  text = delimiter ++ '\n' :: rest ∨ text = delimiter ++ '\r' :: '\n' :: rest

/-- The text has no frontmatter: it does not start with a line of dashes, or no later line closes the block. -/
def Undivided (text : List Char) : Prop :=
  ∀ rest, Opens text rest → ∀ before line after, IsLineIn rest before line after → ¬ isClosing line

/-- The text is an opening line, the block, a closing line and the body. -/
def Divides (text block body : List Char) : Prop :=
  ∃ rest closing, Opens text rest ∧ IsLineIn rest block closing body ∧ isClosing closing ∧
    -- No earlier line closes the block.
    ∀ before line after, IsLineIn rest before line after → isClosing line → block.length ≤ before.length

variable {text rest block body : List Char} {lines : List (List Char)}

theorem opened?_eq_some_iff : opened? text = some rest ↔ Opens text rest := by
  rw [opened?, Opens]
  constructor
  · intro opened
    split at opened
    · rename_i found
      cases opened
      exact .inr (List.isPrefixOf?_eq_some_iff_append_eq.1 found).symm
    · rename_i found
      cases opened
      exact .inl (List.isPrefixOf?_eq_some_iff_append_eq.1 found).symm
    · cases opened
  · rintro (rfl | rfl)
    · rfl
    · rfl

theorem splitAtClosing?_eq_none_iff : splitAtClosing? lines = none ↔ ∀ line ∈ lines, ¬ isClosing line := by
  induction lines with
  | nil => simp [splitAtClosing?]
  | cons line lines ih =>
    rw [splitAtClosing?, List.forall_mem_cons, ← ih]
    by_cases closing : isClosing line
    · simp [closing]
    · simp [closing]

/-- The lines up to the first one that closes the block are the block, and those behind it the body. -/
theorem splitAtClosing?_eq_some_iff : splitAtClosing? lines = some (block, body) ↔ ∃ earlier closing later,
    lines = earlier ++ closing :: later ∧ isClosing closing ∧ (∀ line ∈ earlier, ¬ isClosing line) ∧
      block = earlier.flatten ∧ body = later.flatten := by
  induction lines generalizing block with
  | nil => simp [splitAtClosing?]
  | cons line lines ih =>
    rw [splitAtClosing?]
    by_cases closing : isClosing line
    · rw [if_pos closing]
      constructor
      · rintro ⟨⟩
        exact ⟨[], line, lines, rfl, closing, nofun, rfl, rfl⟩
      · rintro ⟨earlier, last, later, cut, -, open_, rfl, rfl⟩
        cases earlier with
        | nil => rw [(List.cons.inj cut).2]; rfl
        | cons first earlier =>
          exact absurd closing ((List.cons.inj cut).1 ▸ open_ first List.mem_cons_self)
    · rw [if_neg closing, Option.map_eq_some_iff]
      constructor
      · rintro ⟨⟨inner, behind⟩, found, same⟩
        obtain ⟨rfl, rfl⟩ := Prod.mk.inj same
        obtain ⟨earlier, last, later, rfl, closes, open_, rfl, rfl⟩ := ih.1 found
        exact ⟨line :: earlier, last, later, rfl, closes, List.forall_mem_cons.2 ⟨closing, open_⟩, rfl, rfl⟩
      · rintro ⟨earlier, last, later, cut, closes, open_, rfl, rfl⟩
        cases earlier with
        | nil => exact absurd ((List.cons.inj cut).1 ▸ closes) closing
        | cons first earlier =>
          obtain ⟨rfl, behind⟩ := List.cons.inj cut
          rw [List.forall_mem_cons] at open_
          exact ⟨(earlier.flatten, later.flatten), ih.2 ⟨earlier, last, later, behind, closes, open_.2, rfl, rfl⟩, rfl⟩

theorem split?_eq_none_iff : split? text = none ↔ Undivided text := by
  rw [split?, Option.bind_eq_none_iff]
  simp only [opened?_eq_some_iff, splitAtClosing?_eq_none_iff, Undivided]
  refine forall_congr' fun rest => forall_congr' fun _ => ⟨fun open_ before line after h => ?_, fun open_ line m => ?_⟩
  · obtain ⟨earlier, later, cut, -, -⟩ := isLineIn_iff.1 h
    exact open_ line (cut ▸ List.mem_append_right _ List.mem_cons_self)
  · obtain ⟨earlier, later, cut⟩ := List.append_of_mem m
    exact open_ _ line _ (isLineIn_iff.2 ⟨earlier, later, cut, rfl, rfl⟩)

/-- Of the lines that close the block the first one has the shortest text before it. -/
theorem first_iff {earlier later : List (List Char)} {closing : List Char}
    (cut : Text.lines rest = earlier ++ closing :: later) : (∀ line ∈ earlier, ¬ isClosing line) ↔
      ∀ before line after, IsLineIn rest before line after → isClosing line →
        earlier.flatten.length ≤ before.length := by
  constructor
  · intro open_ before line after h closes
    obtain ⟨others, behind, cut', rfl, -⟩ := isLineIn_iff.1 h
    rw [cut] at cut'
    rcases List.append_eq_append_iff.1 cut' with ⟨between, rfl, -⟩ | ⟨between, rfl, tail⟩
    · simp
    · cases between with
      | nil => simp
      | cons first between =>
        obtain ⟨rfl, -⟩ := List.cons.inj tail
        exact absurd closes (open_ line (List.mem_append_right _ List.mem_cons_self))
  · intro least line m closes
    obtain ⟨before, after, rfl⟩ := List.append_of_mem m
    rw [List.append_assoc, List.cons_append] at cut
    have short := least before.flatten line _ (isLineIn_iff.2 ⟨before, _, cut, rfl, rfl⟩) closes
    have filled : line ≠ [] := by
      rintro rfl
      exact absurd closes (by decide)
    have positive := List.length_pos_iff.2 filled
    simp only [List.flatten_append, List.flatten_cons, List.length_append] at short
    omega

theorem split?_eq_some_iff : split? text = some (block, body) ↔ Divides text block body := by
  rw [split?, Option.bind_eq_some_iff, Divides]
  simp only [opened?_eq_some_iff, splitAtClosing?_eq_some_iff]
  constructor
  · rintro ⟨rest, opens, earlier, closing, later, cut, closes, open_, rfl, rfl⟩
    exact ⟨rest, closing, opens, isLineIn_iff.2 ⟨earlier, later, cut, rfl, rfl⟩, closes, (first_iff cut).1 open_⟩
  · rintro ⟨rest, closing, opens, h, closes, least⟩
    obtain ⟨earlier, later, cut, rfl, rfl⟩ := isLineIn_iff.1 h
    exact ⟨rest, opens, earlier, closing, later, cut, closes, (first_iff cut).2 least, rfl, rfl⟩

/-- A block of whole lines none of which closes it comes back from between two lines of dashes. -/
theorem divides_enclosed (whole : block = [] ∨ block.getLast? = some '\n')
    (open_ : ∀ before line after, IsLineIn block before line after → ¬ isClosing line) (body : List Char) :
    Divides (delimiter ++ '\n' :: (block ++ delimiter ++ '\n' :: body)) block body := by
  have cut : Text.lines (block ++ delimiter ++ '\n' :: body) =
      Text.lines block ++ (delimiter ++ ['\n']) :: Text.lines body := by
    rw [List.append_assoc, Text.lines_append whole, Text.lines_content_append (by decide)]
  refine split?_eq_some_iff.1 (Option.bind_eq_some_iff.2 ⟨_, opened?_eq_some_iff.2 (.inl rfl), ?_⟩)
  refine splitAtClosing?_eq_some_iff.2 ⟨_, _, _, cut, by decide, fun line m => ?_, ?_, ?_⟩
  · obtain ⟨earlier, later, cut⟩ := List.append_of_mem m
    exact open_ _ line _ (isLineIn_iff.2 ⟨earlier, later, cut, rfl, rfl⟩)
  · rw [Text.flatten_lines]
  · rw [Text.flatten_lines]

/-! ### Reading -/

/-- The variables that a block gives: none if it is blank, or else those that YAML has in it. -/
def Gives (block : String) (ns : Namespace) : Prop :=
  (∀ c ∈ block.toList, Text.isBlank c) ∧ ns = .empty ∨
    (∃ c ∈ block.toList, ¬ Text.isBlank c) ∧ ∃ fields, Yaml.parse? block = some fields ∧ ns = .ofList fields

/-- Reading the text gives the body with the variables of the block, and fails just if the block gives none. -/
def ReadsAs (raw block body : String) : Prop :=
  (∀ ns text, read raw = .ok (ns, text) ↔ Gives block ns ∧ text = body) ∧
    ∀ error, read raw = .error error ↔ error = .frontmatter ∧ ∀ ns, ¬ Gives block ns

/-- A block gives what is read from it. -/
theorem readBlock_eq_ok_iff {block : String} {ns : Namespace} :
    readBlock block.toList = .ok ns ↔ Gives block ns := by
  rw [readBlock, Gives, String.ofList_toList]
  by_cases blank : ∀ c ∈ block.toList, Text.isBlank c
  · have solid : ¬ ∃ c ∈ block.toList, ¬ Text.isBlank c := fun ⟨c, m, h⟩ => h (blank c m)
    rw [if_pos (Text.isEmpty_trim_iff.2 blank)]
    simp only [solid, false_and, or_false, Except.ok.injEq]
    exact ⟨fun same => ⟨blank, same.symm⟩, fun same => same.2.symm⟩
  · have solid : ∃ c ∈ block.toList, ¬ Text.isBlank c := by simpa using blank
    rw [if_neg fun empty => blank (Text.isEmpty_trim_iff.1 empty)]
    simp only [blank, solid, false_and, true_and, false_or]
    cases Yaml.parse? block with
    | none => simp
    | some fields =>
      simp only [Except.ok.injEq, Option.some.injEq, exists_eq_left']
      exact eq_comm

theorem eq_frontmatter_of_readBlock {block : List Char} {error : Error} (failed : readBlock block = .error error) :
    error = .frontmatter := by
  rw [readBlock] at failed
  split at failed
  · cases failed
  · split at failed
    · cases failed
    · exact (Except.error.inj failed).symm

theorem readBlock_eq_error_iff {block : String} {error : Error} :
    readBlock block.toList = .error error ↔ error = .frontmatter ∧ ∀ ns, ¬ Gives block ns := by
  simp only [← readBlock_eq_ok_iff]
  constructor
  · intro failed
    exact ⟨eq_frontmatter_of_readBlock failed, fun ns read => by cases failed.symm.trans read⟩
  · rintro ⟨rfl, fails⟩
    cases result : readBlock block.toList with
    | ok ns => exact absurd result (fails ns)
    | error cause => rw [eq_frontmatter_of_readBlock result]

theorem readsAs_of_divides {raw block body : String} (h : Divides raw.toList block.toList body.toList) :
    ReadsAs raw block body := by
  have run : read raw = (readBlock block.toList).map (fun ns => (ns, body)) := by
    rw [read, split?_eq_some_iff.2 h]
    dsimp only
    rw [String.ofList_toList]
  constructor
  · intro ns text
    rw [run, ← readBlock_eq_ok_iff]
    cases readBlock block.toList with
    | error cause => simp [Except.map]
    | ok found => simp only [Except.map, Except.ok.injEq, Prod.mk.injEq, @eq_comm _ body text]
  · intro error
    rw [run, ← readBlock_eq_error_iff]
    cases readBlock block.toList with
    | error cause => simp [Except.map]
    | ok found => simp [Except.map]

end Frontmatter

end Folio
