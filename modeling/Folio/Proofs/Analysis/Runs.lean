import Folio.Analysis.Placeholder
import Folio.Proofs.Analysis.Coverage
import Folio.Proofs.Namespace.Dotted
import Folio.Proofs.Template.Precedence
import Mathlib.Data.List.TakeWhile

/-! Dotted paths in flat text. Of a path in a placeholder, the path itself and its runs of names count as paths: an
index ends a run, and a name behind it starts another one, as if it were a variable. So a path that has a value is
never found to be missing just if the runs behind its indices are keywords or lead to the path themselves. -/
namespace Folio

open Template

namespace Placeholder

variable {text after body : List Char}

/-! ### Contents -/

/-- What stands in double braces is a content if no brace closes in it. -/
theorem bodies_delimited (hne : body ≠ []) (h : '}' ∉ body) (after : List Char) :
    bodies ('{' :: '{' :: (body ++ '}' :: '}' :: after)) = Text.trim body :: bodies after := by
  have inside : ∀ c ∈ body, decide (c ≠ '}') = true := fun c m => decide_eq_true fun same => h (same ▸ m)
  have behind : (body ++ '}' :: '}' :: after).dropWhile (· ≠ '}') = '}' :: '}' :: after :=
    List.dropWhile_append_of_pos inside
  have before : (body ++ '}' :: '}' :: after).takeWhile (· ≠ '}') = body := by
    rw [List.takeWhile_append_of_pos inside]
    exact List.append_nil body
  rw [bodies]
  split
  · rename_i rest found
    rw [behind] at found
    cases found
    rw [before, if_neg (by simpa using hne)]
  · rename_i other
    exact absurd behind (other after)

theorem bodies_of_notMem (hne : body ≠ []) (h : '}' ∉ body) :
    bodies ('{' :: '{' :: (body ++ ['}', '}'])) = [Text.trim body] := by
  rw [bodies_delimited hne h]
  simp [bodies]

theorem withoutLiterals_of_notMem (h : ∀ c ∈ ['"', '\'', '\x60'], c ∉ text) : withoutLiterals text = text := by
  induction text with
  | nil => simp [withoutLiterals]
  | cons c text ih =>
    have apart : c ∉ ['"', '\'', '\x60'] := fun m => h c m List.mem_cons_self
    rw [withoutLiterals, if_neg (by simpa [or_assoc] using apart),
      ih fun quote m inside => h quote m (List.mem_cons_of_mem c inside)]

theorem withoutFilters_of_notMem (h : '|' ∉ text) : withoutFilters text = text := by
  induction text with
  | nil => simp [withoutFilters]
  | cons c text ih =>
    rw [List.mem_cons, not_or] at h
    rw [withoutFilters.eq_def]
    split
    · rename_i empty
      cases empty
    · rename_i same
      cases same
      exact absurd rfl h.1
    · rename_i same
      cases same
      rw [ih h.2]

theorem trim_padded {front back : List Char} (hf : IsBlank front) (hb : IsBlank back) (hne : text ≠ [])
    (h : ∀ c ∈ text, Text.isBlank c = false) : Text.trim (front ++ (text ++ back)) = text := by
  have first : IsSolid (text ++ back) := by
    intro c m
    rw [List.head?_append_of_ne_nil text hne] at m
    exact h c (List.mem_of_mem_head? m)
  have last : IsSolid text.reverse := fun c m => h c (List.mem_reverse.1 (List.mem_of_mem_head? m))
  have behind : IsBlank back.reverse := fun c m => hb c (List.mem_reverse.1 m)
  rw [Text.trim, Text.trimStart, dropWhile_isBlank hf first, Text.trimEnd, List.reverse_append,
    dropWhile_isBlank behind last, List.reverse_reverse]

theorem mem_of_isPath (h : isPath text) : ∀ c ∈ text, isIdentRest c ∨ c = '.' := by
  cases text with
  | nil => exact nofun
  | cons c text =>
    rw [isPath, Bool.and_eq_true, List.all_eq_true] at h
    rw [List.forall_mem_cons]
    exact ⟨.inl (isIdentRest_of_isIdentStart h.1), by simpa using h.2⟩

section Path

variable (h : isPath text)
include h

theorem notMem_of_isPath {c : Char} (hc : isIdentRest c = false) (point : c ≠ '.') : c ∉ text := by
  intro m
  rcases mem_of_isPath h c m with rest | same
  · rw [hc] at rest
    cases rest
  · exact point same

theorem trim_of_isPath {gap : List Char} (hg : IsBlank gap) : Text.trim (gap ++ (text ++ gap)) = text := by
  refine trim_padded hg hg ?_ fun c m => ?_
  · rintro rfl
    cases h
  · rcases mem_of_isPath h c m with rest | rfl
    · exact isBlank_of_isIdentRest rest
    · rfl

theorem bodies_of_isPath : bodies ("\x7b\x7b ".toList ++ text ++ " \x7d\x7d".toList) = [text] := by
  have inside : '}' ∉ ' ' :: (text ++ [' ']) := by simpa using notMem_of_isPath h (c := '}') (by decide) (by decide)
  have found := bodies_of_notMem (List.cons_ne_nil ' ' _) inside
  have gap : IsBlank [' '] := List.forall_mem_singleton.2 (by decide)
  have trimmed : Text.trim (' ' :: (text ++ [' '])) = text := trim_of_isPath h gap
  rw [trimmed] at found
  simpa using found

/-- A path stands for itself and for its chains. -/
theorem paths_of_isPath : paths text =
    (String.ofList text :: (chains text).map String.ofList).filter (fun path => !keywords.contains path) := by
  have trimmed : Text.trim text = text := by simpa using trim_of_isPath h isBlank_nil
  have unquoted : withoutLiterals text = text := withoutLiterals_of_notMem <| by
    simp only [List.forall_mem_cons]
    exact ⟨notMem_of_isPath h (by decide) (by decide), notMem_of_isPath h (by decide) (by decide),
      notMem_of_isPath h (by decide) (by decide), nofun⟩
  have unpiped : '|' ∉ text := notMem_of_isPath h (by decide) (by decide)
  have whole : text.takeWhile (· ≠ '|') = text :=
    List.takeWhile_eq_self_iff.2 fun c m => decide_eq_true fun same => unpiped (same ▸ m)
  rw [paths, unquoted, withoutFilters_of_notMem unpiped, whole, trimmed, if_pos h]
  rfl

end Path

theorem mem_referenced {path : String} (h : isPath path.toList) {shown : String} :
    shown ∈ referenced ("\x7b\x7b " ++ path ++ " \x7d\x7d") ↔
      (shown = path ∨ shown ∈ (chains path.toList).map String.ofList) ∧ shown ∉ keywords := by
  rw [referenced, mem_ascending, String.toList_append, String.toList_append, bodies_of_isPath h,
    List.flatMap_singleton, paths_of_isPath h]
  simp

/-! ### Runs -/

/-- In front of letters a chain goes on behind them. -/
theorem splitChain_append {letters : List Char} (h : ∀ c ∈ letters, isIdentRest c = true) :
    splitChain (letters ++ after) = (letters ++ (splitChain after).1, (splitChain after).2) := by
  induction letters with
  | nil => rfl
  | cons c letters ih =>
    rw [List.forall_mem_cons] at h
    rw [List.cons_append, splitChain, if_pos (by simp [h.1]), ih h.2]
    rfl

theorem splitChain_dot_name {name : String} (h : isIdentifier name) : splitChain ('.' :: (name.toList ++ after)) =
    ('.' :: (name.toList ++ (splitChain after).1), (splitChain after).2) := by
  obtain ⟨c, letters, e, hc, -⟩ := isIdentStart_of_isIdentifier h
  rw [splitChain, if_pos (by simp [e, hc]), splitChain_append (isIdentRest_of_isIdentifier h)]

theorem splitChain_dot_index {digits : String} (h : isIndex digits) :
    splitChain ('.' :: (digits.toList ++ after)) = ([], '.' :: (digits.toList ++ after)) := by
  obtain ⟨c, rest, e⟩ := List.exists_cons_of_ne_nil (Segment.ne_nil_of_isIndex h)
  have digit : isIdentStart c = false :=
    isIdentStart_of_isDigit (Segment.isDigit_of_isIndex h c (e ▸ List.mem_cons_self))
  have dot : isIdentRest '.' = false := by decide
  rw [splitChain, if_neg (by simp [e, digit, dot])]

theorem chains_append {skipped : List Char} (h : ∀ c ∈ skipped, isIdentStart c = false) :
    chains (skipped ++ after) = chains after := by
  induction skipped with
  | nil => rfl
  | cons c skipped ih =>
    rw [List.forall_mem_cons] at h
    rw [List.cons_append, chains, if_neg (by simp [h.1]), ih h.2]

theorem chains_name {name : String} (h : isIdentifier name) : chains (name.toList ++ after) =
    (name.toList ++ (splitChain after).1) :: chains (splitChain after).2 := by
  obtain ⟨c, letters, e, hc, hl⟩ := isIdentStart_of_isIdentifier h
  rw [e, List.cons_append, chains, if_pos hc, splitChain_append hl]
  rfl

/-- The chains in a text behind a run that may go on. -/
def chainsBehind (run : Option String) (text : List Char) : List String :=
  match run with
  | none => (chains text).map String.ofList
  | some run => String.ofList (run.toList ++ (splitChain text).1) :: (chains (splitChain text).2).map String.ofList

end Placeholder

namespace Segment

open Placeholder (splitChain chains chainsBehind)

/-- The runs of names in segments behind a run that the first name goes on with. -/
def runs (run : Option String) : List Segment → List String
  | [] => run.toList
  | .name text _ :: rest => runs (some (run.elim text (· ++ "." ++ text))) rest
  | .index .. :: rest => run.toList ++ runs none rest

/-- The scan finds the runs of names. -/
theorem chainsBehind_written (run : Option String) (segments : List Segment) :
    chainsBehind run (written segments) = runs run segments := by
  -- By induction along the segments, whatever run is open.
  fun_induction runs run segments with
  | case1 run =>
    cases run with
    | none => simp [chainsBehind, written, chains]
    | some run => simp [chainsBehind, written, splitChain, chains]
  | case2 run text proper rest ih =>
    rw [← ih, written_cons]
    cases run with
    | none =>
      have dot : ∀ c ∈ ['.'], isIdentStart c = false := List.forall_mem_singleton.2 (by decide)
      have skipped : chains ('.' :: (text.toList ++ written rest)) = chains (text.toList ++ written rest) :=
        Placeholder.chains_append dot
      rw [Placeholder.chains_name proper] at skipped
      simp only [chainsBehind, Segment.text, skipped, Option.elim_none, List.map_cons]
    | some run =>
      simp only [chainsBehind, Segment.text, Placeholder.splitChain_dot_name proper, Option.elim_some,
        String.toList_append]
      simp
  | case3 run digits proper rest ih =>
    have none : ∀ c ∈ '.' :: digits.toList, isIdentStart c = false :=
      List.forall_mem_cons.2 ⟨by decide, fun c m => isIdentStart_of_isDigit (isDigit_of_isIndex proper c m)⟩
    have skipped : chains ('.' :: (digits.toList ++ written rest)) = chains (written rest) :=
      Placeholder.chains_append none
    rw [← ih, written_cons]
    cases run with
    | none => simp only [chainsBehind, Segment.text, skipped, Option.toList_none, List.nil_append]
    | some run =>
      simp only [chainsBehind, Segment.text, Placeholder.splitChain_dot_index proper, skipped, List.append_nil,
        String.ofList_toList, Option.toList_some, List.singleton_append]

/-- The first run ends in front of the first index. -/
theorem runs_some (run : String) (segments : List Segment) : runs (some run) segments =
    Namespace.dotted run ((segments.takeWhile (!·.isNumber)).map text) ::
      runs none (segments.dropWhile (!·.isNumber)) := by
  induction segments generalizing run with
  | nil => rfl
  | cons segment rest ih =>
    cases segment with
    | name text proper =>
      rw [runs, ih]
      rfl
    | index digits proper => rfl

theorem isIdentRest_of_mem_text {segment : Segment} {c : Char} (h : c ∈ segment.text.toList) :
    isIdentRest c = true := by
  cases segment with
  | name text proper => exact isIdentRest_of_isIdentifier proper c h
  | index digits proper => simp [isIdentRest, Char.isAlphanum, isDigit_of_isIndex proper c h]

end Segment

namespace DottedPath

open Placeholder (keywords referenced missing)

variable (path : DottedPath)

/-- The runs of names in the path, in the order of the text. -/
def runs : List String :=
  Segment.runs (some path.root) path.rest

/-- The runs of names behind the first index. -/
def laterRuns : List String :=
  Segment.runs none (path.rest.dropWhile (!·.isNumber))

/-- The text is the path itself or a shorter path that it goes on from. -/
def Passes (stop : String) : Prop :=
  Namespace.segments stop <+: Namespace.segments path.text

instance : DecidablePred path.Passes :=
  fun stop => inferInstanceAs (Decidable (Namespace.segments stop <+: Namespace.segments path.text))

/-- Behind the first index every run of names is a keyword, or the path passes it. -/
def Quiet : Prop :=
  ∀ run ∈ path.laterRuns, run ∈ keywords ∨ path.Passes run

instance : Decidable path.Quiet :=
  inferInstanceAs (Decidable (∀ run ∈ path.laterRuns, run ∈ keywords ∨ path.Passes run))

theorem passes_self : path.Passes path.text :=
  List.prefix_rfl

theorem runs_eq : ∃ first, path.runs = first :: path.laterRuns ∧ path.Passes first := by
  refine ⟨_, Segment.runs_some path.root path.rest, ?_⟩
  rw [Passes, path.segments_text, path.segments_dotted, List.prefix_cons_inj]
  exact (List.takeWhile_prefix _).map _

theorem isPath_text : Placeholder.isPath path.text.toList := by
  obtain ⟨c, letters, e, hc, hl⟩ := isIdentStart_of_isIdentifier path.proper
  rw [toList_text, e, List.cons_append, Placeholder.isPath, Bool.and_eq_true, List.all_eq_true]
  refine ⟨hc, fun d m => ?_⟩
  rw [Segment.written, List.mem_append, List.mem_flatMap] at m
  rcases m with m | ⟨segment, -, m⟩
  · simp [hl d m]
  · rcases List.mem_cons.1 m with rfl | m
    · rfl
    · simp [Segment.isIdentRest_of_mem_text m]

theorem chains_text : (Placeholder.chains path.text.toList).map String.ofList = path.runs := by
  rw [toList_text, Placeholder.chains_name path.proper, runs, ← Segment.chainsBehind_written]
  rfl

/-- In the namespace with the path alone everything is missing that the path does not pass. -/
theorem missing_eq_nil_iff : (∀ ns : Namespace, ns.hasValueAt path.text → missing path.output ns = []) ↔
    ∀ shown ∈ referenced path.output, path.Passes shown := by
  simp only [missing, List.filter_eq_nil_iff, Bool.not_eq_true', Bool.not_eq_false]
  constructor
  · intro silent shown m
    have value := silent (.single path.root (path.rest.map Segment.text))
    simp only [Namespace.hasValueAt_single, ← path.segments_text] at value
    exact value List.prefix_rfl shown m
  · exact fun passes ns value shown m => Namespace.hasValueAt_of_segments_prefix (passes shown m) value

section Free

variable {path} (free : path.text ∉ keywords)
include free

theorem mem_referenced_output {shown : String} :
    shown ∈ referenced path.output ↔ shown = path.text ∨ shown ∈ path.runs ∧ shown ∉ keywords := by
  rw [output, Placeholder.mem_referenced path.isPath_text, chains_text]
  constructor
  · rintro ⟨rfl | run, word⟩
    · exact .inl rfl
    · exact .inr ⟨run, word⟩
  · rintro (rfl | ⟨run, word⟩)
    · exact ⟨.inl rfl, free⟩
    · exact ⟨.inr run, word⟩

theorem passes_referenced_iff : (∀ shown ∈ referenced path.output, path.Passes shown) ↔ path.Quiet := by
  obtain ⟨first, runs, passed⟩ := path.runs_eq
  simp only [mem_referenced_output free, runs]
  constructor
  · intro passes run later
    by_cases word : run ∈ keywords
    · exact .inl word
    · exact .inr (passes run (.inr ⟨List.mem_cons_of_mem _ later, word⟩))
  · rintro quiet shown (rfl | ⟨run, word⟩)
    · exact path.passes_self
    · rcases List.mem_cons.1 run with rfl | later
      · exact passed
      · exact (quiet shown later).resolve_left word

end Free

/-- A placeholder with a path counts as the path and its runs of names. These lead to the path, and none of them is
missing where the path has a value, if and only if the runs behind the first index are keywords or lead to it. -/
theorem silent_iff_quiet (free : path.text ∉ keywords) :
    (∀ shown, shown ∈ referenced path.output ↔ shown = path.text ∨ shown ∈ path.runs ∧ shown ∉ keywords) ∧
      ((∀ shown ∈ referenced path.output, path.Passes shown) ↔ path.Quiet) ∧
      ((∀ ns : Namespace, ns.hasValueAt path.text → missing path.output ns = []) ↔ path.Quiet) :=
  ⟨fun _ => mem_referenced_output free, passes_referenced_iff free,
    path.missing_eq_nil_iff.trans (passes_referenced_iff free)⟩

/-- With an index at the end of the path nothing is missing that is there; a name behind one is another variable. -/
theorem silent_of_index_last :
    let first : DottedPath := ⟨"items", by decide, [.name "list" (by decide), .index "0" (by decide)]⟩
    let name : DottedPath := ⟨"items", by decide, [.index "0" (by decide), .name "name" (by decide)]⟩
    first.output = "\x7b\x7b items.list.0 \x7d\x7d" ∧
      (∀ ns : Namespace, ns.hasValueAt first.text → missing first.output ns = []) ∧
      name.output = "\x7b\x7b items.0.name \x7d\x7d" ∧
      ¬ ∀ ns : Namespace, ns.hasValueAt name.text → missing name.output ns = [] := by
  intro first name
  obtain ⟨-, -, silent⟩ := silent_iff_quiet first (by decide)
  obtain ⟨-, -, loud⟩ := silent_iff_quiet name (by decide)
  have quiet : first.Quiet := by decide
  have other : ¬ name.Quiet := by decide
  exact ⟨by decide, silent.2 quiet, by decide, fun h => other (loud.1 h)⟩

/-- The name of an item is taken for a variable, which is missing although the item has a name. -/
theorem missing_of_name_behind_index :
    let ns : Namespace := .ofList [("items", .seq [.map [("name", .string "x")]])]
    ns.hasValueAt "items.0.name" = true ∧
      referenced "\x7b\x7b items.0.name \x7d\x7d" = ["items", "items.0.name", "name"] ∧
      missing "\x7b\x7b items.0.name \x7d\x7d" ns = ["name"] := by
  decide +kernel

end DottedPath

end Folio
