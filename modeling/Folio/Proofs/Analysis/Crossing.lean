import Folio.Proofs.Analysis.View
import Folio.Proofs.Template.Progress

/-! Over parts of the source of an expression. What the scan of a placeholder sees behind a part it also sees in front
of it, and in front of the name of a variable it sees the variable. A string literal with a line break is none for the
scan, and neither part of it is passed over. -/
namespace Folio

open Template

variable {text after passed raw : List Char} {quote c : Char}

/-! ### Literals -/

namespace Template

/-- The string literals in the source of an expression, each with its closing quote. -/
def literals (text : List Char) : List (List Char) :=
  match text with
  | [] => []
  | c :: rest =>
    if c = '"' || c = '\'' then
      match _h : Parser.stringBody c rest with
      | some (_, after) => front rest after :: literals after
      | none => literals rest
    else literals rest
termination_by text.length
decreasing_by
  all_goals simp_wf
  have := (stringBody_suffix _h).length_le
  omega

/-- No string literal in the source of an expression has a line break. -/
def OneLine (text : List Char) : Prop :=
  ∀ literal ∈ literals text, '\n' ∉ literal

instance : DecidablePred OneLine :=
  fun text => inferInstanceAs (Decidable (∀ literal ∈ literals text, '\n' ∉ literal))

theorem front_left (passed after : List Char) : front (passed ++ after) after = passed := by
  rw [front, List.length_append, Nat.add_sub_cancel, List.take_left]

end Template

namespace Placeholder

theorem literals_append (h : ∀ c ∈ passed, isQuote c = false) : literals (passed ++ text) = literals text := by
  induction passed with
  | nil => rfl
  | cons c passed ih =>
    rw [List.forall_mem_cons] at h
    have plain : ¬ (c = '"' || c = '\'') = true := fun quote => by simp [isQuote] at h quote; simp_all
    rw [List.cons_append, literals, if_neg plain, ih h.2]

/-- A literal is the same whatever is behind it, and if it is on one line the scan comes to the same end. -/
theorem stringBody_cut {body : List Char} (hq : quote ≠ '\\') (h : Parser.stringBody quote text = some (body, after)) :
    ∃ raw, raw ++ after = text ∧ (∀ more, Parser.stringBody quote (raw ++ more) = some (body, more)) ∧
      ('\n' ∉ raw → ∀ more, afterLiteral quote (raw ++ more) = some more) := by
  fun_induction Parser.stringBody quote text generalizing body with
  | case1 => cases h
  | case2 rest =>
    cases h
    refine ⟨[quote], rfl, fun more => ?_, fun line more => ?_⟩
    · rw [List.singleton_append, Parser.stringBody.eq_def]
      exact if_pos rfl
    · rw [List.singleton_append, afterLiteral_cons (by simpa [eq_comm] using line) hq, if_pos rfl]
  | case3 => cases h
  | case4 escaped rest _ other =>
    rename_i ih
    obtain ⟨⟨body, rest⟩, e, h⟩ := Option.map_eq_some_iff.1 h
    cases h
    obtain ⟨raw, cut, parsed, scanned⟩ := ih e
    refine ⟨'\\' :: escaped :: raw, by rw [← cut]; rfl, fun more => ?_, fun line more => ?_⟩
    · rw [List.cons_append, List.cons_append, Parser.stringBody.eq_def]
      dsimp only
      rw [if_neg other, if_pos rfl, parsed]
      rfl
    · simp only [List.mem_cons, not_or] at line
      rw [List.cons_append, List.cons_append, afterLiteral_escaped (Ne.symm line.2.1), scanned line.2.2]
  | case5 c rest other plain ih =>
    obtain ⟨⟨body, rest⟩, e, h⟩ := Option.map_eq_some_iff.1 h
    cases h
    obtain ⟨raw, cut, parsed, scanned⟩ := ih e
    refine ⟨c :: raw, by rw [← cut]; rfl, fun more => ?_, fun line more => ?_⟩
    · rw [List.cons_append, Parser.stringBody.eq_def]
      dsimp only
      rw [if_neg other, if_neg plain, parsed]
      rfl
    · rw [List.mem_cons, not_or] at line
      rw [List.cons_append, afterLiteral_cons (Ne.symm line.1) plain, if_neg other, scanned line.2]

theorem literals_literal {body : List Char} (hq : quote = '"' ∨ quote = '\'')
    (h : ∀ more, Parser.stringBody quote (raw ++ more) = some (body, more)) :
    literals (quote :: (raw ++ text)) = raw :: literals text := by
  have mark : (quote = '"' || quote = '\'') = true := by simpa using hq
  rw [literals, if_pos mark]
  split
  · rename_i found same
    rw [h text] at same
    cases same
    rw [front_left]
  · rename_i none
    rw [h text] at none
    cases none

theorem ne_nil_of_isIdentifier {name : String} (h : isIdentifier name) : name.toList ≠ [] := by
  obtain ⟨c, rest, e, -⟩ := isIdentStart_of_isIdentifier h
  rw [e]
  exact List.cons_ne_nil c rest

/-! ### Edges -/

/-- What a parser stands behind: something that an operand follows, an expression, or the pipe of a filter. -/
inductive Stage where
  | fresh
  | joined
  | pipe
  deriving DecidableEq

/-- No name of a filter follows. -/
class Stage.Ready (stage : Stage) : Prop where
  ne_pipe : stage ≠ .pipe

instance : Stage.Ready .fresh :=
  ⟨nofun⟩

instance : Stage.Ready .joined :=
  ⟨nofun⟩

namespace Edge

def stage : Edge → Stage
  | .apart | .word => .fresh
  | .joined => .joined
  | .pipe => .pipe

/-- A keyword ends in front of the text. -/
def Stands (edge : Edge) (text : List Char) : Prop :=
  edge = .word → EndsWord text

/-- No string literal starts right behind an expression. -/
def Free (edge : Edge) (text : List Char) : Prop :=
  edge = .joined → ∀ c ∈ text.head?, isQuote c = false

theorem Free.append {edge : Edge} (h : ∀ c ∈ passed, isQuote c = false) (hne : passed ≠ []) :
    edge.Free (passed ++ text) := by
  obtain ⟨d, rest, rfl⟩ := List.exists_cons_of_ne_nil hne
  rintro - _ ⟨⟩
  exact h _ List.mem_cons_self

theorem ne_pipe {edge : Edge} {start : Stage} [ready : start.Ready] (same : edge.stage = start) : edge ≠ .pipe := by
  rintro rfl
  exact ready.ne_pipe same.symm

end Edge

/-- A part of a text leads from an edge to the next one: in front of it the scan sees what it sees behind it, and the
names that are not known yet. -/
structure Passes (edge : Edge) (passed : List Char) (known names : List String) (next : Edge) (left : List Char) :
    Prop where
  oneLine : OneLine left
  free : next.Free left → edge.Free (passed ++ left)
  view : next.view left ⊆ edge.view (passed ++ left)
  named : next.Free left → ∀ x ∈ names, x ∈ known ∨ Shown (edge.view (passed ++ left)) x

/-- The part leads from every edge of a stage to one of another, whatever of the text behind it is left. -/
def Crosses (start : Stage) (passed after : List Char) (known names : List String) (stop : Stage) : Prop :=
  ∀ edge : Edge, edge.stage = start → edge.Stands (passed ++ after) →
    ∃ next : Edge, next.stage = stop ∧ next.Stands after ∧
      ∀ left, left <+: after → OneLine (passed ++ left) → Passes edge passed known names next left

namespace Crosses

variable {start mid stop : Stage} {known names : List String}

theorem here (h : names ⊆ known) : Crosses start [] after known names start :=
  fun edge same stands => ⟨edge, same, stands, fun _ _ line =>
    ⟨line, id, List.Subset.refl _, fun _ _ m => .inl (h m)⟩⟩

theorem trans {first second : List Char} {more : List String}
    (hf : Crosses start first (second ++ after) known more mid)
    (hs : Crosses mid second after (more ++ known) names stop) :
    Crosses start (first ++ second) after known names stop := by
  intro edge same stands
  rw [List.append_assoc] at stands
  obtain ⟨between, same, stands, passes⟩ := hf edge same stands
  obtain ⟨next, same, stands, goes⟩ := hs between same stands
  refine ⟨next, same, stands, fun left prefixed line => ?_⟩
  rw [List.append_assoc] at line
  have front := passes (second ++ left) ((List.prefix_append_right_inj second).2 prefixed) line
  have back := goes left prefixed front.oneLine
  constructor
  · exact back.oneLine
  · rw [List.append_assoc]
    exact fun free => front.free (back.free free)
  · rw [List.append_assoc]
    exact List.Subset.trans back.view front.view
  · rw [List.append_assoc]
    intro free x m
    rcases back.named free x m with m | shown
    · rcases List.mem_append.1 m with m | m
      · exact front.named (back.free free) x m
      · exact .inl m
    · exact .inr (shown.mono front.view)

/-- Where an operand may follow, an expression may have ended just as well. -/
theorem settle [stop.Ready] (h : Crosses start passed after known names stop) :
    Crosses start passed after known names .joined := by
  intro edge same stands
  obtain ⟨next, same, -, passes⟩ := h edge same stands
  have free {left : List Char} (h : Edge.joined.Free left) : next.Free left := fun _ => h rfl
  have view (left : List Char) : Edge.joined.view left ⊆ next.view left := by
    cases next with
    | apart => exact Edge.view_joined_subset left
    | joined | word => exact List.Subset.refl _
    | pipe => exact absurd rfl (Edge.ne_pipe same)
  refine ⟨.joined, rfl, nofun, fun left prefixed line => ?_⟩
  have passes := passes left prefixed line
  constructor
  · exact passes.oneLine
  · exact fun h => passes.free (free h)
  · exact List.Subset.trans (view left) passes.view
  · exact fun h => passes.named (free h)

/-- A part without literals and variables. -/
theorem of_unquoted (next : Edge) (h : ∀ c ∈ passed, isQuote c = false) (hne : passed ≠ []) (stands : next.Stands after)
    (view : ∀ edge : Edge, edge.stage = start → ∀ left, next.view left ⊆ edge.view (passed ++ left)) :
    Crosses start passed after known [] next.stage := by
  refine fun edge same _ => ⟨next, rfl, stands, fun left _ line => ?_⟩
  rw [OneLine, literals_append h] at line
  exact ⟨line, fun _ => .append h hne, view edge same left, fun _ => nofun⟩

theorem marks [start.Ready] (h : ∀ c ∈ passed, isMark c) (hne : passed ≠ []) :
    Crosses start passed after known [] .fresh := by
  apply of_unquoted .apart (fun c m => isQuote_of_isMark (h c m)) hne nofun
  intro edge same left
  rw [Edge.view_marks (Edge.ne_pipe same) h hne]
  exact List.Subset.refl _

theorem blanks [ready : start.Ready] (h : IsBlank passed) : Crosses start passed after known [] start := by
  by_cases hne : passed = []
  · rw [hne]
    exact .here (List.nil_subset known)
  · have fresh : Crosses start passed after known [] .fresh := .marks (fun c m => isMark_of_isBlank (h c m)) hne
    cases start with
    | fresh => exact fresh
    | joined => exact fresh.settle
    | pipe => exact absurd rfl ready.ne_pipe

/-- A keyword, or the letters of a name or a number. -/
theorem letters [start.Ready] (next : Edge) (h : ∀ c ∈ passed, isIdentRest c) (hne : passed ≠ [])
    (stands : next.Stands after) (hn : next = .word ∨ next = .joined) :
    Crosses start passed after known [] next.stage := by
  apply of_unquoted next (fun c m => isQuote_of_isIdentRest (h c m)) hne stands
  intro edge same left
  have view : Edge.joined.view left ⊆ edge.view (passed ++ left) := Edge.view_letters (Edge.ne_pipe same) h
  rcases hn with rfl | rfl
  · exact view
  · exact view

theorem word [start.Ready] {keyword : String} (hk : isIdentifier keyword) (ends : EndsWord after) :
    Crosses start keyword.toList after known [] .fresh := by
  exact letters .word (isIdentRest_of_isIdentifier hk) (ne_nil_of_isIdentifier hk) (fun _ => ends) (.inl rfl)

theorem digits [start.Ready] (h : ∀ c ∈ passed, c.isDigit) : Crosses start passed after known [] .joined := by
  by_cases hne : passed = []
  · rw [hne]
    exact (here (List.nil_subset known)).settle
  · refine letters .joined (fun c m => ?_) hne nofun (.inr rfl)
    simp [isIdentRest, Char.isAlphanum, h c m]

theorem dot : Crosses .joined ['.'] after known [] .joined := by
  apply of_unquoted .joined (List.forall_mem_singleton.2 rfl) (List.cons_ne_nil _ _) nofun
  intro edge same left
  cases edge with
  | joined => exact Edge.view_dot left
  | _ => cases same

theorem bar : Crosses .joined ['|'] after known [] .pipe := by
  apply of_unquoted .pipe (List.forall_mem_singleton.2 rfl) (List.cons_ne_nil _ _) nofun
  intro edge same left
  cases edge with
  | joined =>
    show Edge.pipe.view left ⊆ Edge.joined.view ('|' :: left)
    rw [Edge.view_pipe]
    exact List.Subset.refl _
  | _ => cases same

section Names

variable {name : String} (hn : isIdentifier name) {gap : List Char} (hg : IsBlank gap)
include hn hg

theorem filterName : Crosses .pipe (gap ++ name.toList) after known [] .joined := by
  apply of_unquoted .joined (isQuote_of_mem_name hg hn) ?_ nofun
  · intro edge same left
    cases edge with
    | pipe =>
      rw [List.append_assoc]
      exact Edge.view_filterName hg hn
    | _ => cases same
  · exact List.append_ne_nil_of_right_ne_nil gap (ne_nil_of_isIdentifier hn)

theorem memberName : Crosses .joined (gap ++ name.toList) after known [] .joined := by
  apply trans (blanks hg)
  exact letters .joined (isIdentRest_of_isIdentifier hn) (ne_nil_of_isIdentifier hn) nofun
    (.inr rfl)

/-- Where an operand may follow, the scan sees the name of a variable. -/
theorem variableName (ends : EndsWord after) : Crosses .fresh (gap ++ name.toList) after known [name] .joined := by
  apply trans (blanks hg)
  intro edge same stands
  cases edge with
  | apart =>
    refine ⟨.joined, rfl, nofun, fun left prefixed line => ?_⟩
    have letter : ∀ c ∈ left.head?, isIdentRest c = false := by
      obtain ⟨tail, rfl⟩ := prefixed
      exact fun c m => ends c (by simp [Option.mem_def.1 m])
    have rest := isIdentRest_of_isIdentifier hn
    rw [OneLine, literals_append fun c m => isQuote_of_isIdentRest (rest c m)] at line
    refine ⟨line, fun _ => nofun, Edge.view_letters (by decide) rest, fun free x m => .inr ?_⟩
    cases List.mem_singleton.1 m
    exact Edge.shown_name hn letter (free rfl)
  | word =>
    obtain ⟨c, rest, e, start, -⟩ := isIdentStart_of_isIdentifier hn
    have other : isIdentRest c = false := stands rfl c (by simp [e])
    rw [isIdentRest_of_isIdentStart start] at other
    cases other
  | _ => cases same

end Names

end Crosses

/-- What is passed of the text leads to what is after it. -/
def Spans (start : Stage) (text after : List Char) (known names : List String) (stop : Stage) : Prop :=
  ∃ passed, passed ++ after = text ∧ Crosses start passed after known names stop

namespace Spans

variable {start mid stop : Stage} {known names : List String}

theorem trans {between : List Char} {more : List String} (hf : Spans start text between known more mid)
    (hs : Spans mid between after (more ++ known) names stop) : Spans start text after known names stop := by
  obtain ⟨first, rfl, crossed⟩ := hf
  obtain ⟨second, rfl, crossed'⟩ := hs
  exact ⟨first ++ second, List.append_assoc first second after, crossed.trans crossed'⟩

theorem literal {body : List Char} (hq : quote = '"' ∨ quote = '\'')
    (h : Parser.stringBody quote text = some (body, after)) : Spans .fresh (quote :: text) after known [] .joined := by
  have mark : isQuote quote = true := by rcases hq with rfl | rfl <;> decide
  have plain : quote ≠ '\\' := by rcases hq with rfl | rfl <;> decide
  obtain ⟨raw, rfl, parsed, scanned⟩ := stringBody_cut plain h
  refine ⟨quote :: raw, rfl, fun edge same _ => ⟨.joined, rfl, nofun, fun left _ line => ?_⟩⟩
  have other : edge ≠ .pipe := Edge.ne_pipe same
  rw [List.cons_append, OneLine, literals_literal hq parsed, List.forall_mem_cons] at line
  refine ⟨line.2, fun _ => ?_, ?_, fun _ => nofun⟩
  · cases edge with
    | joined => cases same
    | _ => exact nofun
  · rw [List.cons_append, Edge.view_literal other mark (scanned line.1 left)]
    cases edge with
    | apart => exact Edge.view_joined_subset left
    | word => exact List.Subset.refl _
    | _ => cases same

end Spans

end Placeholder

end Folio
