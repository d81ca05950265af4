import Folio.Proofs.Analysis.Runs

/-! What the scan of a placeholder sees. From where a text starts, and from what stands in front of it, follows which
chains of identifiers are found in it: behind a blank, an operator or a bracket all of them, behind a letter none that
the text only goes on with, and behind a pipe none in the name of a filter. -/
namespace Folio.Placeholder

open Template

variable {text after : List Char} {c quote : Char}

/-- The marks of string literals. -/
def isQuote (c : Char) : Bool :=
  c = '"' || c = '\'' || c = '\x60'

/-- The character ends a chain and does nothing else: it is a blank, an operator or a bracket. -/
def isMark (c : Char) : Bool :=
  !isIdentRest c && !isQuote c && !(c = '.' || c = '|')

/-- The text without string literals and names of filters. -/
def bare (text : List Char) : List Char :=
  withoutFilters (withoutLiterals text)

/-- What stands in front of a text: a mark, an expression, a keyword, or the pipe of a filter. -/
inductive Edge where
  | apart
  | joined
  | word
  | pipe
  deriving DecidableEq

/-- The chains that the scan finds in a text behind an edge. -/
def Edge.view : Edge → List Char → List (List Char)
  | .apart, text => chains (bare text)
  | .joined, text | .word, text => chains (splitChain (bare text)).2
  | .pipe, text => chains (withoutFilters (withoutName (withoutLiterals text)))

/-- The variable is at the start of one of the chains. -/
def Shown (chains : List (List Char)) (x : String) : Prop :=
  ∃ chain ∈ chains, chain.takeWhile (· ≠ '.') = x.toList

theorem Shown.mono {chains more : List (List Char)} {x : String} (h : Shown chains x) (s : chains ⊆ more) :
    Shown more x := by
  obtain ⟨chain, m, starts⟩ := h
  exact ⟨chain, s m, starts⟩

/-- There is something where a variable is seen. -/
theorem Shown.ne_nil {x : String} (h : Shown (Edge.apart.view text) x) : text ≠ [] := by
  rintro rfl
  obtain ⟨chain, m, -⟩ := h
  simp [Edge.view, bare, withoutLiterals, withoutFilters, chains] at m

/-! ### Texts without literals and names of filters -/

theorem withoutLiterals_append {passed : List Char} (h : ∀ c ∈ passed, isQuote c = false) :
    withoutLiterals (passed ++ text) = passed ++ withoutLiterals text := by
  induction passed with
  | nil => rfl
  | cons c passed ih =>
    rw [List.forall_mem_cons, isQuote] at h
    rw [List.cons_append, withoutLiterals, if_neg (by simp [h.1]), ih h.2]
    rfl

theorem withoutFilters_append {passed : List Char} (h : '|' ∉ passed) :
    withoutFilters (passed ++ text) = passed ++ withoutFilters text := by
  induction passed with
  | nil => rfl
  | cons c passed ih =>
    rw [List.mem_cons, not_or] at h
    rw [List.cons_append, withoutFilters.eq_def]
    split
    · rename_i empty
      cases empty
    · rename_i same
      cases same
      exact absurd rfl h.1
    · rename_i same
      cases same
      rw [ih h.2]
      rfl

theorem withoutFilters_cons (h : c ≠ '|') : withoutFilters (c :: text) = c :: withoutFilters text :=
  withoutFilters_append (by simpa using h.symm : '|' ∉ [c])

theorem bare_append {passed : List Char} (hq : ∀ c ∈ passed, isQuote c = false) (hp : '|' ∉ passed) :
    bare (passed ++ text) = passed ++ bare text := by
  rw [bare, withoutLiterals_append hq, withoutFilters_append hp, bare]

theorem bare_cons (hq : isQuote c = false) (hp : c ≠ '|') : bare (c :: text) = c :: bare text :=
  bare_append (List.forall_mem_singleton.2 hq) (by simpa using hp.symm)

theorem withoutLiterals_literal (hq : isQuote c) (h : afterLiteral c text = some after) :
    withoutLiterals (c :: text) = withoutLiterals after := by
  rw [isQuote] at hq
  rw [withoutLiterals, if_pos hq]
  split
  · rename_i found same
    rw [h] at same
    cases same
    rfl
  · rename_i none
    rw [h] at none
    cases none

/-- A quote without its partner stays. -/
theorem withoutLiterals_open (hq : isQuote c) (h : afterLiteral c text = none) :
    withoutLiterals (c :: text) = c :: withoutLiterals text := by
  rw [isQuote] at hq
  rw [withoutLiterals, if_pos hq]
  split
  · rename_i found same
    rw [h] at same
    cases same
  · rfl

theorem bare_literal (hq : isQuote c) (h : afterLiteral c text = some after) : bare (c :: text) = bare after := by
  rw [bare, withoutLiterals_literal hq h, bare]

theorem bare_pipe : bare ('|' :: text) = '|' :: withoutFilters (withoutName (withoutLiterals text)) := by
  rw [bare, withoutLiterals, if_neg (by decide), withoutFilters]

/-! ### Marks and letters -/

theorem isIdentRest_of_isMark (h : isMark c) : isIdentRest c = false := by
  simp only [isMark, Bool.and_eq_true, Bool.not_eq_true'] at h
  exact h.1.1

theorem isIdentStart_of_isMark (h : isMark c) : isIdentStart c = false := by
  rw [Bool.eq_false_iff]
  intro start
  have rest := isIdentRest_of_isMark h
  rw [isIdentRest_of_isIdentStart start] at rest
  cases rest

theorem isQuote_of_isIdentRest (h : isIdentRest c) : isQuote c = false := by
  rw [Bool.eq_false_iff]
  intro quote
  simp only [isQuote, Bool.or_eq_true, decide_eq_true_eq] at quote
  rcases quote with (rfl | rfl) | rfl <;> revert h <;> decide

theorem isQuote_of_isMark (h : isMark c) : isQuote c = false := by
  simp only [isMark, Bool.and_eq_true, Bool.not_eq_true'] at h
  exact h.1.2

theorem isBlank_of_isQuote (h : isQuote c) : Text.isBlank c = false := by
  simp only [isQuote, Bool.or_eq_true, decide_eq_true_eq] at h
  rcases h with (rfl | rfl) | rfl <;> rfl

theorem isMark_of_isBlank (h : Text.isBlank c) : isMark c := by
  have letter : isIdentRest c = false := by
    rw [Bool.eq_false_iff]
    intro rest
    have := isBlank_of_isIdentRest rest
    rw [h] at this
    cases this
  have unquoted : isQuote c = false := by
    rw [Bool.eq_false_iff]
    exact fun quote => ne_of_isBlank h (isBlank_of_isQuote quote) rfl
  have dot : c ≠ '.' := ne_of_isBlank h rfl
  have bar : c ≠ '|' := ne_of_isBlank h rfl
  simp [isMark, letter, unquoted, dot, bar]

/-- There is no quote in a name and in the blanks before it. -/
theorem isQuote_of_mem_name {blanks : List Char} (hb : IsBlank blanks) {name : String} (hn : isIdentifier name) :
    ∀ d ∈ blanks ++ name.toList, isQuote d = false := by
  intro d m
  rcases List.mem_append.1 m with m | m
  · exact isQuote_of_isMark (isMark_of_isBlank (hb d m))
  · exact isQuote_of_isIdentRest (isIdentRest_of_isIdentifier hn d m)

theorem bare_marks {marks : List Char} (h : ∀ c ∈ marks, isMark c) : bare (marks ++ text) = marks ++ bare text := by
  apply bare_append
  · exact fun c m => isQuote_of_isMark (h c m)
  · intro m
    exact absurd (h '|' m) (by decide)

theorem pipe_notMem_of_letters {letters : List Char} (h : ∀ c ∈ letters, isIdentRest c) : '|' ∉ letters :=
  fun m => absurd (h '|' m) (by decide)

theorem bare_letters {letters : List Char} (h : ∀ c ∈ letters, isIdentRest c) :
    bare (letters ++ text) = letters ++ bare text :=
  bare_append (fun c m => isQuote_of_isIdentRest (h c m)) (pipe_notMem_of_letters h)

/-! ### Chains -/

/-- A chain that is left out is one of those that are found. -/
theorem chains_splitChain_subset (text : List Char) : chains (splitChain text).2 ⊆ chains text := by
  induction text with
  | nil => exact List.Subset.refl _
  | cons c rest ih =>
    rw [splitChain]
    split
    · show chains (splitChain rest).2 ⊆ chains (c :: rest)
      rw [chains.eq_2]
      by_cases start : isIdentStart c
      · rw [if_pos start]
        exact List.subset_cons_self _ _
      · rw [if_neg start]
        exact ih
    · exact List.Subset.refl _

theorem splitChain_mark (h : isMark c) : splitChain (c :: text) = ([], c :: text) := by
  have dot : c ≠ '.' := by
    rintro rfl
    revert h
    decide
  rw [splitChain, if_neg (by simp [isIdentRest_of_isMark h, dot])]

/-- Without a letter in front a chain can only go on with a point. -/
theorem takeWhile_splitChain (h : ∀ c ∈ text.head?, isIdentRest c = false) :
    (splitChain text).1.takeWhile (· ≠ '.') = [] := by
  cases text with
  | nil => rfl
  | cons c rest =>
    have letter : isIdentRest c = false := h c rfl
    rw [splitChain]
    split
    · rename_i goes
      simp only [letter, Bool.false_or, Bool.and_eq_true, decide_eq_true_eq] at goes
      obtain ⟨rfl, -⟩ := goes
      rfl
    · rfl

/-! ### Views -/

namespace Edge

theorem view_joined_subset (text : List Char) : joined.view text ⊆ apart.view text :=
  chains_splitChain_subset _

/-- Behind a mark all chains are seen. -/
theorem view_marks {edge : Edge} (he : edge ≠ .pipe) {marks : List Char} (h : ∀ c ∈ marks, isMark c)
    (hne : marks ≠ []) : edge.view (marks ++ text) = apart.view text := by
  have found : chains (marks ++ bare text) = chains (bare text) :=
    chains_append fun c m => isIdentStart_of_isMark (h c m)
  have split : splitChain (marks ++ bare text) = ([], marks ++ bare text) := by
    obtain ⟨c, rest, rfl⟩ := List.exists_cons_of_ne_nil hne
    exact splitChain_mark (h c List.mem_cons_self)
  cases edge with
  | apart =>
    show chains (bare (marks ++ text)) = chains (bare text)
    rw [bare_marks h, found]
  | joined | word =>
    show chains (splitChain (bare (marks ++ text))).2 = chains (bare text)
    rw [bare_marks h, split, found]
  | pipe => exact absurd rfl he

theorem view_apart_marks {marks : List Char} (h : ∀ c ∈ marks, isMark c) :
    apart.view (marks ++ text) = apart.view text := by
  by_cases hne : marks = []
  · rw [hne, List.nil_append]
  · exact view_marks (by decide) h hne

theorem view_joined_letters {letters : List Char} (h : ∀ c ∈ letters, isIdentRest c) :
    joined.view (letters ++ text) = joined.view text := by
  rw [view, bare_letters h, splitChain_append h, view]

/-- Behind letters no chain is seen that they go on in. -/
theorem view_letters {edge : Edge} (he : edge ≠ .pipe) {letters : List Char} (h : ∀ c ∈ letters, isIdentRest c) :
    joined.view text ⊆ edge.view (letters ++ text) := by
  have seen : joined.view text ⊆ joined.view (letters ++ text) :=
    (view_joined_letters h).symm ▸ List.Subset.refl _
  cases edge with
  | apart => exact List.Subset.trans seen (view_joined_subset _)
  | joined | word => exact seen
  | pipe => exact absurd rfl he

theorem view_dot (text : List Char) : joined.view text ⊆ joined.view ('.' :: text) := by
  rw [view, view, bare_cons (by decide) (by decide), splitChain]
  split
  · exact List.Subset.refl _
  · rw [chains, if_neg (by decide)]
    exact chains_splitChain_subset _

theorem view_pipe (text : List Char) : joined.view ('|' :: text) = pipe.view text := by
  rw [view, bare_pipe, splitChain, if_neg (by simp [isIdentRest]), chains, if_neg (by decide), view]

/-- The name of a filter is passed over. -/
theorem view_filterName {blanks : List Char} (hb : IsBlank blanks) {name : String} (hn : isIdentifier name) :
    joined.view text ⊆ pipe.view (blanks ++ (name.toList ++ text)) := by
  obtain ⟨c, letters, e, start, rest⟩ := isIdentStart_of_isIdentifier hn
  have solid : IsSolid (name.toList ++ withoutLiterals text) := by
    rw [e]
    exact fun d m => Option.some.inj m ▸ isBlank_of_isIdentRest (isIdentRest_of_isIdentStart start)
  have named : withoutName (withoutLiterals (blanks ++ (name.toList ++ text))) =
      (withoutLiterals text).dropWhile isIdentRest := by
    rw [← List.append_assoc, withoutLiterals_append (isQuote_of_mem_name hb hn), List.append_assoc, withoutName,
      Text.trimStart, dropWhile_isBlank hb solid, e, List.cons_append]
    dsimp only
    rw [if_pos start, List.dropWhile_append_of_pos rest]
  have letters : ∀ c ∈ (withoutLiterals text).takeWhile isIdentRest, isIdentRest c := fun c m =>
    List.mem_takeWhile_imp m
  have cut := List.takeWhile_append_dropWhile (p := isIdentRest) (l := withoutLiterals text)
  show chains (splitChain (withoutFilters (withoutLiterals text))).2 ⊆ chains (withoutFilters (withoutName _))
  rw [named, ← cut, withoutFilters_append (pipe_notMem_of_letters letters), splitChain_append letters, cut]
  exact chains_splitChain_subset _

theorem view_literal {edge : Edge} (he : edge ≠ .pipe) (hq : isQuote c = true) (h : afterLiteral c text = some after) :
    edge.view (c :: text) = edge.view after := by
  cases edge with
  | pipe => exact absurd rfl he
  | _ => rw [view, view, bare_literal hq h]

theorem isIdentRest_of_mem_head?_bare (letter : ∀ c ∈ text.head?, isIdentRest c = false)
    (quote : ∀ c ∈ text.head?, isQuote c = false) : ∀ c ∈ (bare text).head?, isIdentRest c = false := by
  cases text with
  | nil => simp [bare, withoutLiterals, withoutFilters]
  | cons c rest =>
    by_cases pipe : c = '|'
    · rw [pipe, bare_pipe]
      exact fun d m => Option.some.inj m ▸ rfl
    · rw [bare_cons (quote c rfl) pipe]
      exact fun d m => Option.some.inj m ▸ letter c rfl

/-- A variable behind a mark is seen, where neither a letter nor a literal follows it. -/
theorem shown_name {name : String} (hn : isIdentifier name)
    (letter : ∀ c ∈ text.head?, isIdentRest c = false) (quote : ∀ c ∈ text.head?, isQuote c = false) :
    Shown (apart.view (name.toList ++ text)) name := by
  have rest : ∀ c ∈ name.toList, isIdentRest c := isIdentRest_of_isIdentifier hn
  have undotted : ∀ c ∈ name.toList, decide (c ≠ '.') = true := fun c m =>
    decide_eq_true fun same => dot_notMem_of_isIdentifier hn (same ▸ m)
  show Shown (chains (bare (name.toList ++ text))) name
  rw [bare_letters rest, chains_name hn]
  refine ⟨_, List.mem_cons_self, ?_⟩
  rw [List.takeWhile_append_of_pos undotted, takeWhile_splitChain (isIdentRest_of_mem_head?_bare letter quote),
    List.append_nil]

end Edge

/-! ### Blanks at the ends -/

theorem afterLiteral_escaped (h : c ≠ '\n') : afterLiteral quote ('\\' :: c :: text) = afterLiteral quote text :=
  afterLiteral.eq_5 quote c text h

theorem afterLiteral_cons (line : c ≠ '\n') (escape : c ≠ '\\') :
    afterLiteral quote (c :: text) = if c = quote then some text else afterLiteral quote text := by
  rw [afterLiteral.eq_def]
  split <;> simp_all

theorem afterLiteral_of_notMem (h : quote ∉ text) : afterLiteral quote text = none := by
  fun_induction afterLiteral quote text with
  | case5 c rest _ ih => exact ih fun m => h (List.mem_cons_of_mem _ (List.mem_cons_of_mem _ m))
  | case6 rest => exact absurd List.mem_cons_self h
  | case7 c rest _ _ _ _ _ ih => exact ih fun m => h (List.mem_cons_of_mem _ m)
  | _ => rfl

section Gap

variable {gap : List Char} (hg : IsBlank gap)
include hg

theorem afterLiteral_gap (hq : isQuote quote) :
    afterLiteral quote (text ++ gap) = (afterLiteral quote text).map (· ++ gap) := by
  have open_gap : quote ∉ gap := fun m => ne_of_isBlank (hg quote m) (isBlank_of_isQuote hq) rfl
  simp only [isQuote, Bool.or_eq_true, decide_eq_true_eq] at hq
  have escape : quote ≠ '\\' := by rcases hq with (rfl | rfl) | rfl <;> decide
  have line : quote ≠ '\n' := by rcases hq with (rfl | rfl) | rfl <;> decide
  fun_induction afterLiteral quote text with
  | case1 => exact afterLiteral_of_notMem open_gap
  | case2 | case4 => rfl
  | case3 => exact afterLiteral_of_notMem (by simp [escape, open_gap])
  | case5 c rest same ih => rw [List.cons_append, List.cons_append, afterLiteral_escaped same, ih]
  | case6 rest =>
    rw [List.cons_append, afterLiteral_cons line escape, if_pos rfl]
    rfl
  | case7 c rest other ended _ goes differs ih =>
    have plain : c ≠ '\\' := by
      rintro rfl
      cases rest with
      | nil => exact ended rfl rfl
      | cons d rest => exact goes d rest rfl rfl
    rw [List.cons_append, afterLiteral_cons other plain, if_neg differs, ih]

theorem withoutLiterals_gap : withoutLiterals (text ++ gap) = withoutLiterals text ++ gap := by
  fun_induction withoutLiterals text with
  | case1 =>
    apply withoutLiterals_of_notMem
    intro c quote inside
    have solid : Text.isBlank c = false := isBlank_of_isQuote (by simpa [isQuote, or_assoc] using quote)
    exact ne_of_isBlank (hg c inside) solid rfl
  | case2 c rest quote after found ih =>
    rw [List.cons_append, withoutLiterals_literal quote (by rw [afterLiteral_gap hg quote, found]; rfl), ih]
  | case3 c rest quote none ih =>
    rw [List.cons_append, withoutLiterals_open quote (by rw [afterLiteral_gap hg quote, none]; rfl), ih,
      List.cons_append]
  | case4 c rest plain ih => rw [List.cons_append, withoutLiterals, if_neg plain, ih, List.cons_append]

theorem withoutName_gap : withoutName (text ++ gap) = withoutName text ++ gap := by
  have letters : gap.dropWhile isIdentRest = gap := by
    cases gap with
    | nil => rfl
    | cons c rest =>
      have other := isIdentRest_of_isMark (isMark_of_isBlank (hg c List.mem_cons_self))
      exact List.dropWhile_cons_of_neg (by rw [other]; decide)
  have blanks : gap.dropWhile Text.isBlank = [] := List.dropWhile_eq_nil_iff.2 hg
  cases h : text.dropWhile Text.isBlank with
  | nil => simp [withoutName, Text.trimStart, List.dropWhile_append, h, blanks]
  | cons c rest =>
    by_cases start : isIdentStart c
    · have cut : (rest ++ gap).dropWhile isIdentRest = rest.dropWhile isIdentRest ++ gap := by
        rw [List.dropWhile_append, letters]
        split
        · rename_i empty
          rw [List.isEmpty_iff.1 empty, List.nil_append]
        · rfl
      simp [withoutName, Text.trimStart, List.dropWhile_append, h, start, cut]
    · simp [withoutName, Text.trimStart, List.dropWhile_append, h, start]

theorem withoutFilters_gap : withoutFilters (text ++ gap) = withoutFilters text ++ gap := by
  fun_induction withoutFilters text with
  | case1 => exact withoutFilters_of_notMem fun m => ne_of_isBlank (hg '|' m) (by decide) rfl
  | case2 rest ih => rw [List.cons_append, withoutFilters, withoutName_gap hg, ih, List.cons_append]
  | case3 c rest other ih => rw [List.cons_append, withoutFilters_cons other, ih, List.cons_append]

theorem splitChain_gap : splitChain (text ++ gap) = ((splitChain text).1, (splitChain text).2 ++ gap) := by
  have ahead (rest : List Char) : (rest ++ gap).head?.any isIdentStart = rest.head?.any isIdentStart := by
    cases rest with
    | cons c rest => rfl
    | nil =>
      cases gap with
      | nil => rfl
      | cons c rest => exact isIdentStart_of_isMark (isMark_of_isBlank (hg c List.mem_cons_self))
  induction text with
  | nil =>
    cases gap with
    | nil => rfl
    | cons c rest => exact splitChain_mark (isMark_of_isBlank (hg c List.mem_cons_self))
  | cons c rest ih =>
    rw [List.cons_append, splitChain, splitChain, ahead, ih]
    split <;> rfl

theorem chains_gap : chains (text ++ gap) = chains text := by
  fun_induction chains text with
  | case1 =>
    have none : ∀ c ∈ gap, isIdentStart c = false := fun c m => isIdentStart_of_isMark (isMark_of_isBlank (hg c m))
    have found : chains (gap ++ []) = chains [] := chains_append none
    simpa [chains] using found
  | case2 c rest start ih => rw [List.cons_append, chains, if_pos start, splitChain_gap hg, ih]
  | case3 c rest start ih => rw [List.cons_append, chains, if_neg start, ih]

/-- Blanks behind a text change nothing. -/
theorem view_gap : Edge.apart.view (text ++ gap) = Edge.apart.view text := by
  show chains (bare (text ++ gap)) = chains (bare text)
  rw [bare, withoutLiterals_gap hg, withoutFilters_gap hg, chains_gap hg, bare]

end Gap

theorem view_trim (text : List Char) : Edge.apart.view (Text.trim text) = Edge.apart.view text := by
  have front : text.takeWhile Text.isBlank ++ Text.trimStart text = text := List.takeWhile_append_dropWhile
  have back :
      Text.trim text ++ ((Text.trimStart text).reverse.takeWhile Text.isBlank).reverse = Text.trimStart text := by
    rw [Text.trim, Text.trimEnd, ← List.reverse_append, List.takeWhile_append_dropWhile, List.reverse_reverse]
  calc Edge.apart.view (Text.trim text)
      = Edge.apart.view (Text.trimStart text) := by
        conv_rhs => rw [← back]
        exact (view_gap fun c m => List.mem_takeWhile_imp (List.mem_reverse.1 m)).symm
    _ = Edge.apart.view text := by
        conv_rhs => rw [← front]
        exact (Edge.view_apart_marks fun c m => isMark_of_isBlank (List.mem_takeWhile_imp m)).symm

end Folio.Placeholder
