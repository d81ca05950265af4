import Folio.Proofs.Template.Reading
import Folio.Stylesheet
import Mathlib.Data.List.TakeWhile

/-! The form of the directive by which a sheet extends another. A sheet has a parent just if it starts with a directive,
and it can start with one in one way only: the parts of the directive, and with them the name of the parent and the rest
of the sheet, are what the sheet says they are. One line break behind the directive goes, and all else stays. -/
namespace Folio.Stylesheet

open Template (IsBlank)

/-- A directive as it stands in a sheet, by the blanks and the name that it is made of. -/
@[ext]
structure Directive where
  lead : List Char
  gap : List Char
  name : List Char
  trail : List Char
  lead_blank : IsBlank lead
  gap_blank : IsBlank gap
  gap_ne_nil : gap ≠ []
  name_ne_nil : name ≠ []
  name_ascii : ∀ c ∈ name, ('A' ≤ c ∧ c ≤ 'Z') ∨ ('a' ≤ c ∧ c ≤ 'z') ∨ ('0' ≤ c ∧ c ≤ '9') ∨ c = '_' ∨ c = '-'
  trail_blank : IsBlank trail

def Directive.text (d : Directive) : List Char :=
  "/*".toList ++ d.lead ++ "@extends".toList ++ d.gap ++ d.name ++ d.trail ++ "*/".toList

/-- What stands behind a directive, and the same without the line break that it may start with. -/
inductive Breaks : List Char → List Char → Prop
  | crlf (rest : List Char) : Breaks ('\r' :: '\n' :: rest) rest
  | lf (rest : List Char) : Breaks ('\n' :: rest) rest
  | unbroken {rest : List Char} (h : ¬ "\r\n".toList <+: rest) (h' : ¬ "\n".toList <+: rest) : Breaks rest rest

variable {css after rest : List Char} {c : Char}

/-! ### Characters -/

theorem isNameChar_iff : isNameChar c ↔
    ('A' ≤ c ∧ c ≤ 'Z') ∨ ('a' ≤ c ∧ c ≤ 'z') ∨ ('0' ≤ c ∧ c ≤ '9') ∨ c = '_' ∨ c = '-' := by
  have le_iff (a b : Char) : a ≤ b ↔ a.toNat ≤ b.toNat := UInt32.le_iff_toNat_le
  simp [isNameChar, Char.isAlphanum, Template.isAlpha_iff, isDigit_iff, le_iff, or_assoc]

theorem isBlank_of_isNameChar (h : isNameChar c) : Text.isBlank c = false := by
  rw [isNameChar, Bool.or_eq_true, decide_eq_true_eq] at h
  rcases h with h | rfl
  · exact Template.isBlank_of_isIdentRest h
  · decide

theorem isNameChar_of_isBlank (h : Text.isBlank c) : isNameChar c = false :=
  Bool.eq_false_iff.2 fun named => by simp [isBlank_of_isNameChar named] at h

/-! ### Line breaks -/

theorem breaks_dropLineBreak (after : List Char) : Breaks after (dropLineBreak after) := by
  fun_cases dropLineBreak after with
  | case1 rest => exact .crlf rest
  | case2 rest => exact .lf rest
  | case3 _ pair feed =>
    refine .unbroken ?_ ?_
    · rintro ⟨rest, rfl⟩
      exact pair rest rfl
    · rintro ⟨rest, rfl⟩
      exact feed rest rfl

theorem Breaks.dropLineBreak_eq (h : Breaks after rest) : dropLineBreak after = rest := by
  cases h with
  | crlf | lf => rfl
  | unbroken pair feed =>
    fun_cases dropLineBreak after with
    | case1 rest => exact absurd (List.prefix_append _ rest) pair
    | case2 rest => exact absurd (List.prefix_append _ rest) feed
    | case3 => rfl

/-! ### Runs -/

section Runs

variable {p : Char → Bool} {run run' back back' : List Char}

/-- A run of characters with a property stops in front of what has it not. -/
theorem takeWhile_run (inside : ∀ c ∈ run, p c) (stop : ∀ c ∈ back.head?, p c = false) :
    (run ++ back).takeWhile p = run := by
  rw [List.takeWhile_append_of_pos inside]
  cases back with
  | nil => rw [List.takeWhile_nil, List.append_nil]
  | cons c back => rw [List.takeWhile_cons_of_neg (by simp [stop c rfl]), List.append_nil]

theorem dropWhile_run (inside : ∀ c ∈ run, p c) (stop : ∀ c ∈ back.head?, p c = false) :
    (run ++ back).dropWhile p = back := by
  rw [List.dropWhile_append_of_pos inside]
  cases back with
  | nil => rfl
  | cons c back => exact List.dropWhile_cons_of_neg (by simp [stop c rfl])

/-- A text starts with one such run. -/
theorem run_inj (inside : ∀ c ∈ run, p c) (stop : ∀ c ∈ back.head?, p c = false) (inside' : ∀ c ∈ run', p c)
    (stop' : ∀ c ∈ back'.head?, p c = false) (same : run ++ back = run' ++ back') : run = run' ∧ back = back' :=
  ⟨by rw [← takeWhile_run inside stop, same, takeWhile_run inside' stop'],
    by rw [← dropWhile_run inside stop, same, dropWhile_run inside' stop']⟩

end Runs

/-! ### Parts

Each run of a directive stops where the next part starts. -/

namespace Directive

variable (d d' : Directive) (after after' more : List Char)

theorem text_append : d.text ++ after =
    "/*".toList ++ (d.lead ++ ("@extends".toList ++ (d.gap ++ (d.name ++ (d.trail ++ ("*/".toList ++ after)))))) := by
  unfold text
  simp only [List.append_assoc]

theorem isNameChar_of_mem : ∀ c ∈ d.name, isNameChar c :=
  fun c m => isNameChar_iff.2 (d.name_ascii c m)

theorem lead_stops : ∀ c ∈ ("@extends".toList ++ more).head?, Text.isBlank c = false := by
  rintro c ⟨⟩
  decide

theorem gap_stops : ∀ c ∈ (d.name ++ more).head?, Text.isBlank c = false := by
  intro c first
  rw [List.head?_append_of_ne_nil _ d.name_ne_nil] at first
  exact isBlank_of_isNameChar (d.isNameChar_of_mem c (List.mem_of_mem_head? first))

theorem name_stops : ∀ c ∈ (d.trail ++ ("*/".toList ++ more)).head?, isNameChar c = false := by
  cases run : d.trail with
  | nil =>
    rintro c ⟨⟩
    decide
  | cons b trail =>
    rintro c ⟨⟩
    exact isNameChar_of_isBlank (d.trail_blank b (run ▸ List.mem_cons_self))

theorem trail_stops : ∀ c ∈ ("*/".toList ++ more).head?, Text.isBlank c = false := by
  rintro c ⟨⟩
  decide

variable {d d' after after'}

/-- A sheet is divided into the parts of a directive and what stands behind it in one way only. -/
theorem text_append_inj (same : d.text ++ after = d'.text ++ after') : d = d' ∧ after = after' := by
  rw [text_append, text_append] at same
  obtain ⟨lead, keyed⟩ := run_inj d.lead_blank (lead_stops _) d'.lead_blank (lead_stops _)
    (List.append_cancel_left same)
  obtain ⟨gap, named⟩ := run_inj d.gap_blank (d.gap_stops _) d'.gap_blank (d'.gap_stops _)
    (List.append_cancel_left keyed)
  obtain ⟨name, closed⟩ := run_inj d.isNameChar_of_mem (d.name_stops _) d'.isNameChar_of_mem (d'.name_stops _)
    named
  obtain ⟨trail, behind⟩ := run_inj d.trail_blank (trail_stops _) d'.trail_blank (trail_stops _) closed
  exact ⟨Directive.ext lead gap name trail, List.append_cancel_left behind⟩

end Directive

/-! ### Reading -/

/-- The reading of a directive, token by token. -/
theorem directive?_eq_some_iff_tokens {found : String × List Char} : directive? css = some found ↔
    ∃ opened keyed after, "/*".toList ++ opened = css ∧ "@extends".toList ++ keyed = Text.trimStart opened ∧
      keyed.head?.any Text.isBlank ∧ (Text.trimStart keyed).takeWhile isNameChar ≠ [] ∧
      "*/".toList ++ after = Text.trimStart ((Text.trimStart keyed).dropWhile isNameChar) ∧
      (String.ofList ((Text.trimStart keyed).takeWhile isNameChar), dropLineBreak after) = found := by
  simp only [directive?, Option.bind_eq_bind, Option.bind_eq_some_iff, List.isPrefixOf?_eq_some_iff_append_eq]
  constructor
  · rintro ⟨opened, opens, keyed, keys, named⟩
    split at named
    · cases named
    rename_i blank
    split at named
    · cases named
    rename_i filled
    obtain ⟨after, closes, same⟩ := Option.bind_eq_some_iff.1 named
    exact ⟨opened, keyed, after, opens, keys, by simpa using blank, by simpa using filled,
      List.isPrefixOf?_eq_some_iff_append_eq.1 closes, Option.some.inj same⟩
  · rintro ⟨opened, keyed, after, opens, keys, blank, filled, closes, rfl⟩
    refine ⟨opened, opens, keyed, keys, ?_⟩
    rw [if_neg (by simp [blank]), if_neg (by simpa using filled)]
    exact Option.bind_eq_some_iff.2 ⟨after, List.isPrefixOf?_eq_some_iff_append_eq.2 closes, rfl⟩

/-- What is written as a directive is read as one. -/
theorem directive?_text_append (d : Directive) (after : List Char) :
    directive? (d.text ++ after) = some (String.ofList d.name, dropLineBreak after) := by
  have closed := dropWhile_run d.trail_blank (Directive.trail_stops after)
  have named := takeWhile_run d.isNameChar_of_mem (d.name_stops after)
  have behind := dropWhile_run d.isNameChar_of_mem (d.name_stops after)
  have keyed := dropWhile_run d.gap_blank (d.gap_stops (d.trail ++ ("*/".toList ++ after)))
  have opened := dropWhile_run d.lead_blank
    (Directive.lead_stops (d.gap ++ (d.name ++ (d.trail ++ ("*/".toList ++ after)))))
  have blank (more : List Char) : (d.gap ++ more).head?.any Text.isBlank := by
    obtain ⟨b, gap, run⟩ := List.exists_cons_of_ne_nil d.gap_ne_nil
    rw [run]
    exact d.gap_blank b (run ▸ List.mem_cons_self)
  refine directive?_eq_some_iff_tokens.2 ⟨_, _, after, (d.text_append after).symm, opened.symm, blank _, ?_⟩
  simp only [Text.trimStart, keyed, named, behind, closed]
  exact ⟨d.name_ne_nil, trivial, trivial⟩

/-- What is read as a directive is written as one. -/
theorem exists_eq_text_append {found : String × List Char} (read : directive? css = some found) :
    ∃ (d : Directive) (after : List Char),
      css = d.text ++ after ∧ (String.ofList d.name, dropLineBreak after) = found := by
  obtain ⟨opened, keyed, after, rfl, keys, blank, filled, closes, rfl⟩ := directive?_eq_some_iff_tokens.1 read
  have blanks (text : List Char) : IsBlank (text.takeWhile Text.isBlank) := fun _ m => List.mem_takeWhile_imp m
  have trimmed (text : List Char) : text.takeWhile Text.isBlank ++ Text.trimStart text = text :=
    List.takeWhile_append_dropWhile
  have gapped : keyed.takeWhile Text.isBlank ≠ [] := by
    obtain ⟨b, first, gap⟩ := (Option.any_eq_true _ _).1 blank
    obtain ⟨more, rfl⟩ := List.head?_eq_some_iff.1 first
    rw [List.takeWhile_cons_of_pos gap]
    exact List.cons_ne_nil _ _
  refine ⟨{
    lead := opened.takeWhile Text.isBlank
    gap := keyed.takeWhile Text.isBlank
    name := (Text.trimStart keyed).takeWhile isNameChar
    trail := ((Text.trimStart keyed).dropWhile isNameChar).takeWhile Text.isBlank
    lead_blank := blanks _
    gap_blank := blanks _
    gap_ne_nil := gapped
    name_ne_nil := filled
    name_ascii := fun _ m => isNameChar_iff.1 (List.mem_takeWhile_imp m)
    trail_blank := blanks _ }, after, ?_, rfl⟩
  -- Each run and what is left behind it make up the text again.
  simp only [Directive.text_append, closes, trimmed, List.takeWhile_append_dropWhile, keys]

/-- A sheet extends a parent just if a directive stands at its start, which names the parent. There is no more than one
way to divide a sheet like this. The text besides the directive is what stands behind it, without one line break if
there is one. -/
theorem directive?_eq_some_iff (css : List Char) :
    (∀ name rest, directive? css = some (name, rest) ↔ ∃ (d : Directive) (after : List Char),
      css = d.text ++ after ∧ String.ofList d.name = name ∧ Breaks after rest) ∧
    (directive? css = none ↔ ∀ (d : Directive) (after : List Char), css ≠ d.text ++ after) ∧
    ∀ (d d' : Directive) (after after' rest rest' : List Char), css = d.text ++ after → css = d'.text ++ after' →
      Breaks after rest → Breaks after' rest' → d = d' ∧ after = after' ∧ rest = rest' := by
  refine ⟨fun name rest => ?_, ?_, ?_⟩
  · constructor
    · intro read
      obtain ⟨d, after, whole, same⟩ := exists_eq_text_append read
      obtain ⟨rfl, rfl⟩ := Prod.mk.inj same
      exact ⟨d, after, whole, rfl, breaks_dropLineBreak after⟩
    · rintro ⟨d, after, rfl, rfl, breaks⟩
      rw [directive?_text_append, breaks.dropLineBreak_eq]
  · constructor
    · rintro none d after rfl
      rw [directive?_text_append] at none
      cases none
    · intro other
      refine Option.eq_none_iff_forall_ne_some.2 fun found read => ?_
      obtain ⟨d, after, whole, -⟩ := exists_eq_text_append read
      exact other d after whole
  · rintro d d' after after' rest rest' rfl same breaks breaks'
    obtain ⟨rfl, rfl⟩ := Directive.text_append_inj same
    exact ⟨rfl, rfl, breaks.dropLineBreak_eq.symm.trans breaks'.dropLineBreak_eq⟩

/-- A directive with two line breaks behind it, of which one stays. -/
theorem directive?_of_offer :
    let css := "/*   @extends  my-base_2\t*/\r\n\r\nbody".toList
    ∃ d : Directive, css = d.text ++ "\r\n\r\nbody".toList ∧ Breaks "\r\n\r\nbody".toList "\r\nbody".toList ∧
      directive? css = some ("my-base_2", "\r\nbody".toList) := by
  intro css
  have blank (gap : List Char) (h : gap.all Text.isBlank) : IsBlank gap := List.all_eq_true.1 h
  have named : "my-base_2".toList.all isNameChar := by decide
  let d : Directive := {
    lead := "   ".toList
    gap := "  ".toList
    name := "my-base_2".toList
    trail := "\t".toList
    lead_blank := blank _ (by decide)
    gap_blank := blank _ (by decide)
    gap_ne_nil := by decide
    name_ne_nil := by decide
    name_ascii := fun c m => isNameChar_iff.1 (List.all_eq_true.1 named c m)
    trail_blank := blank _ (by decide) }
  have whole : css = d.text ++ "\r\n\r\nbody".toList := rfl
  exact ⟨d, whole, .crlf _, ((directive?_eq_some_iff css).1 _ _).2 ⟨d, _, whole, rfl, .crlf _⟩⟩

/-- A name with a point in it, a key without a blank behind it and a comment that does not end are no directives. -/
example : ["/* @extends a.b */", "/* @extendsbase */", "/* @extends base *"].all
    (fun css => (directive? css.toList).isNone) := by
  decide

end Folio.Stylesheet
