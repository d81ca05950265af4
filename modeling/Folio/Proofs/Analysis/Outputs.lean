import Folio.Proofs.Analysis.Scanning
import Folio.Proofs.Template.Characters
import Folio.Proofs.Template.Dashes
import Folio.Proofs.Template.Totality

/-! Outputs in flat text. The scan of a text that is a template meets every output of it, whatever the text around the
outputs and the comments between them hold, and it finds every variable of the output, as long as no brace closes in the
output and no string literal in it has a line break. -/
namespace Folio

open Template
open Placeholder (Edge Shown Spans)

/-- The expression of an output. -/
def Node.output? : Node → Option Expr
  | .output e => some e
  | _ => none

/-- The node is a text or an output. -/
def Node.isContent (node : Node) : Bool :=
  node.isText || node.output?.isSome

namespace Template

variable {text after : List Char} {cursor next : Cursor}

/-! ### Outputs and their sources -/

/-- What is between delimiters of two characters each. -/
def inside (part : List Char) : List Char :=
  (part.drop 2).take (part.length - 4)

namespace Parser

variable {α β : Type}

/-- The outputs of a text of less than `bound` characters outside of all bodies, each with its source between the
delimiters. -/
def outputs : Nat → Parser (List (List Char × Expr))
  | 0 => exhausted
  | bound + 1 => do
    let _ ← Parser.text
    if ← atEnd then return []
    let before ← rest
    let node ← markup (nodes bound) (expression (bound + 1)) (bound + 1)
    let after ← rest
    let more ← outputs bound
    return (node.bind Node.output?).toList.map (fun e => (inside (front before after), e)) ++ more

end Parser

/-- The outputs of a template, each with its source between the delimiters. -/
def outputs (source : String) : List (List Char × Expr) :=
  match Parser.outputs (source.toList.length + 1) ⟨source.toList, false⟩ with
  | .ok (found, _) => found
  | .error _ => []

namespace Parser

theorem bind_ok {p : Parser β} {f : β → Parser α} {value : β} (h : p cursor = .ok (value, next)) :
    (p >>= f) cursor = f value next := by
  show (p cursor).bind (fun (value, next) => f value next) = f value next
  rw [h]
  rfl

/-! ### Braces that close -/

/-- What the parser takes ends with a brace. -/
def Braces (p : Parser α) : Prop :=
  ∀ ⦃cursor value next⦄, p cursor = .ok (value, next) → ∃ passed, passed ++ '}' :: next.rest = cursor.rest

theorem Braces.behind {must : β → Prop} {p : Parser β} {f : β → Parser α} (hp : ∀ bound, Advances bound must p)
    (hf : ∀ value, Braces (f value)) : Braces (p >>= f) := by
  intro cursor value next run
  obtain ⟨first, between, front, back⟩ := exists_of_bind run
  obtain ⟨read, cut⟩ := suffix_of_advances hp front
  obtain ⟨passed, cut'⟩ := hf first back
  exact ⟨read ++ passed, by rw [List.append_assoc, cut', cut]⟩

/-- What stands in front of a closing delimiter is no part of a name. -/
theorem isMark_of_close (gap : Gap) (present : Bool) : ∀ c ∈ gap.1 ++ dash present, Placeholder.isMark c := by
  rw [List.forall_mem_append]
  refine ⟨fun c m => Placeholder.isMark_of_isBlank (gap.2 c m), ?_⟩
  cases present with
  | true => exact List.forall_mem_singleton.2 (by decide)
  | false => exact nofun

theorem braces_expectClose {close : String} {c : Char} (hc : close.toList = [c, '}']) : Braces (expectClose close) := by
  intro cursor _ next run
  obtain ⟨gap, present, cut⟩ := exists_of_expectClose run
  exact ⟨gap.1 ++ (dash present ++ [c]), by rw [← cut, hc]; simp⟩

theorem braces_comment : Braces comment := by
  refine .behind (fun bound => advances_expect (by decide)) fun _ cursor value next run => ?_
  obtain ⟨_, _, ahead, run⟩ := exists_of_bind run
  cases ahead
  cases h : afterComment cursor.rest with
  | none =>
    rw [h] at run
    cases run
  | some found =>
    rw [h] at run
    have rest : next.rest = found.2 := by
      obtain ⟨trim, after⟩ := found
      cases trim <;> cases run <;> rfl
    rw [rest]
    obtain ⟨passed, cut⟩ := afterComment_close h
    exact ⟨passed ++ ['#'], by rw [← cut]; simp⟩

theorem braces_endTag {keyword : String} (hk : keyword.toList ≠ []) : Braces (endTag keyword) :=
  .behind (fun _ => advances_expect (by decide)) fun _ => .behind (fun _ => advances_consume (by decide)) fun _ =>
    .behind (fun _ => advances_expectWord hk) fun _ => braces_expectClose rfl

theorem braces_rawTag : Braces rawTag := by
  refine .behind (fun _ => advances_close) fun _ cursor value next run => ?_
  obtain ⟨_, _, ahead, run⟩ := exists_of_bind run
  cases ahead
  cases h : splitAtEndRaw cursor.rest with
  | none =>
    rw [h] at run
    cases run
  | some found =>
    rw [h] at run
    obtain ⟨_, _, moved, run⟩ := exists_of_bind run
    cases moved
    obtain ⟨content, _, moved, run⟩ := exists_of_bind run
    cases moved
    obtain ⟨_, last, ended, run⟩ := exists_of_bind run
    cases run
    obtain ⟨passed, cut⟩ := braces_endTag (by decide) ended
    refine ⟨found.1 ++ passed, ?_⟩
    rw [List.append_assoc, cut]
    exact splitAtEndRaw_append h

/-! ### Tags -/

section Tags

variable (body : BodyParser) (inner : Parser Expr) (bound : Nat)

/-- The parser reads neither a text nor an output. -/
abbrev ReadsTag (p : Parser Node) : Prop :=
  Yields p (fun node => node.isContent = false)

theorem readsTag_branchTag : ReadsTag (branchTag body inner bound) :=
  .after fun _ => .after fun _ => .after fun _ => .pure rfl

theorem readsTag_loopTag : ReadsTag (loopTag body inner bound) := by
  refine .after fun _ => .after fun _ => .after fun _ => .after fun _ => .after fun (_, closing) => ?_
  dsimp only
  split
  · exact .after fun _ => .after fun _ => .after fun _ => .pure rfl
  · exact .after fun _ => .pure rfl

theorem readsTag_inclusionTag : ReadsTag (inclusionTag inner) := by
  refine .after fun _ => .after fun ignoreMissing => ?_
  split
  · exact .after fun _ => .after fun _ => .after fun _ => .pure rfl
  · exact .after fun _ => .after fun _ => .pure rfl

theorem readsTag_blockTag : ReadsTag (blockTag body) := by
  refine .after fun _ => .after fun _ => .after fun _ => .after fun _ => .after fun _ => .after fun _ => ?_
  refine .after fun _ => .after fun _ => .ite (.after fun closing => ?_) (.after fun _ => .pure rfl)
  split
  · exact .after fun _ => .after fun _ => .pure rfl
  · exact .after fun _ => .pure rfl

theorem output?_of_rawTag : Yields rawTag (fun node => node.output? = none) := by
  refine .after fun _ => .after fun _ => ?_
  split
  · exact .after fun _ => .after fun _ => .after fun _ => .pure rfl
  · exact .after fun _ => .fail _

/-- Of the tags only a raw block is read as a text, and none as an output. -/
theorem braces_tag {node : Node} (run : tag body inner bound cursor = .ok (node, next)) (content : node.isContent) :
    (∃ passed, passed ++ '}' :: next.rest = cursor.rest) ∧ node.output? = none := by
  obtain ⟨_, _, opening, run⟩ := exists_of_bind run
  cases opening
  obtain ⟨keyword, inside, opened, run⟩ := exists_of_bind run
  have other {p : Parser Node} (h : ReadsTag p) (run : p inside = .ok (node, next)) :
      (∃ passed, passed ++ '}' :: next.rest = cursor.rest) ∧ node.output? = none := by
    rw [h run] at content
    cases content
  split at run
  · exact other (readsTag_branchTag body inner bound) run
  · exact other (readsTag_loopTag body inner bound) run
  · exact other (readsTag_inclusionTag inner) run
  · exact other (.after fun _ => .after fun _ => .after fun _ => .after fun _ => .after fun _ => .pure rfl) run
  · exact other (readsTag_blockTag body) run
  · exact other (.after fun _ => .after fun _ => .pure rfl) run
  · obtain ⟨read, cut⟩ := suffix_of_advances (fun _ => advances_openTag) opened
    obtain ⟨passed, cut'⟩ := braces_rawTag run
    exact ⟨⟨read ++ passed, by rw [List.append_assoc, cut', cut]⟩, output?_of_rawTag run⟩
  · exact other (.after fun _ => .after fun _ => .after fun _ => .after fun _ => .after fun _ => .pure rfl) run
  · exact other (.after fun _ => .after fun _ => .after fun _ => .after fun _ => .pure rfl) run
  · exact other (.after fun _ => .after fun _ => .after fun _ => .after fun _ => .pure rfl) run
  · exact other (.after fun _ => .after fun _ => .after fun _ => .after fun _ => .after fun _ => .pure rfl) run
  · exact other (.after fun _ => .after fun _ => .after fun _ => .after fun _ => .after fun _ => .pure rfl) run
  · cases run

end Tags

/-- The scan sees the variables of an output in its source. -/
theorem exists_of_outputTag {bound : Nat} {node : Node}
    (run : outputTag (expression bound) cursor = .ok (node, next)) :
    ∃ e part, node = .output e ∧ '{' :: '{' :: (part ++ '}' :: '}' :: next.rest) = cursor.rest ∧
      (OneLine part → ∀ x ∈ e.names, Shown (Edge.apart.view part) x) := by
  obtain ⟨_, opened, front, run⟩ := exists_of_bind run
  obtain ⟨dash, started, taken, run⟩ := exists_of_bind run
  obtain ⟨e, behind, read, run⟩ := exists_of_bind run
  obtain ⟨_, last, closed, run⟩ := exists_of_bind run
  cases run
  have start : Spans .fresh opened.rest started.rest [] [] (cond dash .fresh .fresh) :=
    scans_consume (by decide) opened.rest opened.trimNext opened.position dash started taken
  rw [Bool.cond_self] at start
  have whole : Spans .fresh opened.rest behind.rest [] e.names .joined :=
    start.trans (scans_expression bound [] started.rest started.trimNext started.position e behind read)
  obtain ⟨passed, cut, crossed⟩ := whole
  obtain ⟨gap, present, cut'⟩ := exists_of_expectClose closed
  rw [← List.append_assoc] at cut'
  have plain := isMark_of_close gap present
  generalize gap.1 ++ Template.dash present = marks at cut' plain
  refine ⟨e, passed ++ marks, rfl, ?_, fun line x m => ?_⟩
  · rw [← rest_of_expect_token front, ← cut, ← cut', List.append_assoc]
    rfl
  · obtain ⟨edge, same, -, passes⟩ := crossed .apart rfl nofun
    have passes := passes marks ⟨_, cut'⟩ line
    have free : edge.Free marks := fun _ c m => Placeholder.isQuote_of_isMark (plain c (List.mem_of_mem_head? m))
    exact (passes.named free x m).resolve_left nofun

/-- Markup that is a text, an output or a comment ends with a brace. -/
theorem markup_cases {body : BodyParser} {bound : Nat} {node : Option Node}
    (run : markup body (expression bound) bound cursor = .ok (node, next)) (content : ∀ n ∈ node, n.isContent) :
    (∃ passed, passed ++ '}' :: next.rest = cursor.rest) ∧ ∀ e ∈ node.bind Node.output?,
      ∃ part, '{' :: '{' :: (part ++ '}' :: '}' :: next.rest) = cursor.rest ∧
        (OneLine part → ∀ x ∈ e.names, Shown (Edge.apart.view part) x) := by
  obtain ⟨_, _, peeked, run⟩ := exists_of_bind run
  cases peeked
  split at run
  · obtain ⟨_, _, read, run⟩ := exists_of_bind run
    cases run
    exact ⟨braces_comment read, nofun⟩
  obtain ⟨_, _, peeked, run⟩ := exists_of_bind run
  cases peeked
  split at run
  · obtain ⟨_, _, read, run⟩ := exists_of_bind run
    cases run
    obtain ⟨e, part, rfl, cut, seen⟩ := exists_of_outputTag read
    refine ⟨⟨'{' :: '{' :: (part ++ ['}']), ?_⟩, ?_⟩
    · rw [← cut]
      simp
    · rintro _ ⟨⟩
      exact ⟨part, cut, seen⟩
  · obtain ⟨found, _, read, run⟩ := exists_of_bind run
    cases run
    obtain ⟨passed, other⟩ := braces_tag body (expression bound) bound read (content found rfl)
    refine ⟨passed, ?_⟩
    rw [Option.bind_some, other]
    exact nofun

end Parser

end Template

namespace Placeholder

/-! ### Contents -/

theorem bodies_cons {c : Char} {rest : List Char} (h : c = '{' → rest.head? ≠ some '{') :
    bodies (c :: rest) = bodies rest := by
  rw [bodies.eq_def]
  split
  · rename_i e
    cases e
  · rename_i e
    cases e
    exact absurd rfl (h rfl)
  · rename_i e
    cases e
    rfl

/-- Two braces open a content, or the second of them does. -/
theorem bodies_cases (rest : List Char) :
    (∃ after, rest.takeWhile (· ≠ '}') ++ '}' :: '}' :: after = rest ∧
      bodies ('{' :: '{' :: rest) = Text.trim (rest.takeWhile (· ≠ '}')) :: bodies after) ∨
    bodies ('{' :: '{' :: rest) = bodies ('{' :: rest) := by
  rw [bodies]
  split
  · rename_i after closed
    split
    · exact .inr rfl
    · refine .inl ⟨after, ?_, rfl⟩
      rw [← closed, List.takeWhile_append_dropWhile]
  · exact .inr rfl

theorem bodies_brace (text : List Char) : bodies ('}' :: text) = bodies text :=
  bodies_cons fun e => absurd e (by decide)

/-- Two braces that close behind no other are in front of a brace further on, or it is one of them. -/
theorem closing_cases {body behind rest after : List Char} (h : '}' ∉ body)
    (cut : body ++ '}' :: '}' :: behind = rest ++ '}' :: after) :
    behind = after ∨ after = '}' :: behind ∨ ∃ more, more.length < rest.length ∧ behind = more ++ '}' :: after := by
  obtain ⟨more, rfl, same⟩ | ⟨more, rfl, same⟩ := List.append_eq_append_iff.1 cut
  · match more, same with
    | [], same =>
      cases same
      exact .inr (.inl rfl)
    | [_], same =>
      cases same
      exact .inl rfl
    | _ :: _ :: more, same =>
      cases same
      refine .inr (.inr ⟨more, ?_, rfl⟩)
      simp only [List.length_append, List.length_cons]
      omega
  · cases more with
    | nil =>
      cases same
      exact .inr (.inl rfl)
    | cons d more =>
      cases same
      exact absurd (List.mem_append_right rest List.mem_cons_self) h

/-- A content that opens in front of a brace closes there at the latest, or right behind it. -/
theorem bodies_subset_brace (passed after : List Char) : bodies after ⊆ bodies (passed ++ '}' :: after) := by
  match passed with
  | [] =>
    rw [List.nil_append, bodies_brace]
    exact List.Subset.refl _
  | c :: rest =>
    by_cases opens : c = '{' ∧ rest.head? = some '{'
    · obtain ⟨rfl, opens⟩ := opens
      obtain ⟨rest, rfl⟩ : ∃ more, rest = '{' :: more := List.head?_eq_some_iff.1 opens
      rw [List.cons_append, List.cons_append]
      obtain ⟨behind, cut, found⟩ | skipped := bodies_cases (rest ++ '}' :: after)
      · rw [found]
        apply List.subset_cons_of_subset
        have inside : '}' ∉ (rest ++ '}' :: after).takeWhile (· ≠ '}') := fun m => by
          simpa using List.mem_takeWhile_imp m
        obtain rfl | rfl | ⟨more, shorter, rfl⟩ := closing_cases inside cut
        · exact List.Subset.refl _
        · rw [bodies_brace]
          exact List.Subset.refl _
        · exact bodies_subset_brace more after
      · rw [skipped, ← List.cons_append]
        exact bodies_subset_brace ('{' :: rest) after
    · rw [List.cons_append, bodies_cons]
      · exact bodies_subset_brace rest after
      · rintro rfl open_
        cases rest with
        | nil => cases open_
        | cons d rest => exact opens ⟨rfl, open_⟩
termination_by passed.length
decreasing_by
  all_goals
    subst_vars
    simp only [List.length_cons]
    omega

theorem bodies_splitAtOpening (text : List Char) : bodies (splitAtOpening text).2 = bodies text := by
  induction text with
  | nil => rfl
  | cons c rest ih =>
    rw [splitAtOpening]
    split
    · rfl
    · rename_i other
      show bodies (splitAtOpening rest).2 = bodies (c :: rest)
      rw [ih, bodies_cons]
      rintro rfl open_
      cases rest with
      | nil => cases open_
      | cons d rest =>
        cases open_
        exact absurd rfl other

end Placeholder

namespace Template.Parser

open Placeholder (bodies)

theorem inside_delimited (part after : List Char) :
    inside (front ('{' :: '{' :: (part ++ '}' :: '}' :: after)) after) = part := by
  have whole : '{' :: '{' :: (part ++ '}' :: '}' :: after) = '{' :: '{' :: (part ++ ['}', '}']) ++ after := by simp
  rw [whole, front_left, inside]
  simp

theorem filterMap_leading (content : String) : (leading content).filterMap Node.output? = [] := by
  rw [leading]
  split <;> rfl

theorem filterMap_toList (node : Option Node) :
    node.toList.filterMap Node.output? = (node.bind Node.output?).toList := by
  cases node with
  | none => rfl
  | some node =>
    rw [Option.toList_some, Option.bind_some]
    cases h : node.output? with
    | none => simp [h]
    | some e => simp [h]

theorem rest_of_text {content : String} (run : Parser.text cursor = .ok (content, next)) :
    next.rest = (splitAtOpening cursor.rest).2 := by
  cases run
  rfl

/-- The outputs are those of the nodes. Of each that has no brace and no line break in a literal the scan sees the
variables. -/
theorem outputs_of_nodes {bound : Nat} {ns : List Node} {closing : Option String} {last : Cursor}
    (run : nodes bound [] cursor = .ok ((ns, closing), last)) :
    ∃ found, outputs bound cursor = .ok (found, last) ∧ found.map (·.2) = ns.filterMap Node.output? ∧
      ((∀ n ∈ ns, n.isContent) → ∀ output ∈ found, '}' ∉ output.1 → OneLine output.1 →
        ∀ x ∈ output.2.names, ∃ body ∈ bodies cursor.rest, Shown (Edge.apart.view body) x) := by
  induction bound generalizing cursor ns with
  | zero => cases run
  | succ bound ih =>
    obtain ⟨content, between, text, split⟩ := exists_of_nodes run
    have ahead : atEnd between = .ok (between.rest.isEmpty, between) := rfl
    have rest (cursor : Cursor) : Parser.rest cursor = .ok (cursor.rest, cursor) := rfl
    obtain ⟨ended, rfl, rfl⟩ | ⟨going, node, behind, more, tag, later, rfl⟩ := split
    · refine ⟨[], ?_, by rw [filterMap_leading]; rfl, fun _ => nofun⟩
      rw [ended] at ahead
      rw [outputs, bind_ok text, bind_ok ahead]
      rfl
    · rw [List.isEmpty_eq_false_iff.2 going] at ahead
      obtain ⟨found, read, same, seen⟩ := ih later
      have unfolded : outputs (bound + 1) cursor = .ok ((node.bind Node.output?).toList.map (fun e =>
          (inside (front between.rest behind.rest), e)) ++ found, last) := by
        rw [outputs, bind_ok text, bind_ok ahead]
        show (Parser.rest >>= _) between = _
        rw [bind_ok (rest between), bind_ok tag, bind_ok (rest behind), bind_ok read]
        rfl
      refine ⟨_, unfolded, ?_, fun content output m brace line x hx => ?_⟩
      · rw [List.map_append, same, List.filterMap_append, List.filterMap_append, filterMap_leading, List.nil_append,
          List.map_map, filterMap_toList]
        exact congrArg (· ++ _) (List.map_id _)
      · simp only [List.forall_mem_append] at content
        obtain ⟨⟨passed, cut⟩, shown⟩ := markup_cases tag fun n m => content.1.2 n (Option.mem_toList.2 m)
        rw [← Placeholder.bodies_splitAtOpening, ← rest_of_text text]
        rcases List.mem_append.1 m with m | m
        · obtain ⟨e, found, rfl⟩ := List.mem_map.1 m
          obtain ⟨part, whole, seen⟩ := shown e (Option.mem_toList.1 found)
          rw [← whole, inside_delimited] at brace line
          have here : Shown (Edge.apart.view part) x := seen line x hx
          refine ⟨Text.trim part, ?_, (Placeholder.view_trim part).symm ▸ here⟩
          rw [← whole, Placeholder.bodies_delimited (here.ne_nil) brace]
          exact List.mem_cons_self
        · obtain ⟨body, inside, shown⟩ := seen content.2 output m brace line x hx
          exact ⟨body, cut ▸ Placeholder.bodies_subset_brace passed behind.rest inside, shown⟩

end Template.Parser

theorem Text.head?_splitOn (separator : Char) (text : List Char) :
    (splitOn separator text).head? = some (text.takeWhile (· ≠ separator)) := by
  induction text with
  | nil => rfl
  | cons c rest ih =>
    rw [splitOn]
    split
    · rename_i same
      simp [same]
    · rename_i other
      obtain ⟨part, parts, e⟩ := List.exists_cons_of_ne_nil (splitOn_ne_nil separator rest)
      rw [e, List.head?_cons, Option.some.injEq] at ih
      simp [e, other, ih]

theorem Placeholder.dot_notMem_of_mem_keywords : ∀ word ∈ keywords, '.' ∉ word.toList := by
  decide

/-- A variable that the scan sees in a content is the first segment of a path there. -/
theorem Placeholder.exists_mem_paths {body : List Char} {x : String} (h : Shown (Edge.apart.view body) x)
    (free : x ∉ keywords) : ∃ path ∈ paths body, (Namespace.segments path).head? = some x := by
  obtain ⟨chain, m, starts⟩ := h
  have word : String.ofList chain ∉ keywords := by
    intro keyword
    have dotless := dot_notMem_of_mem_keywords _ keyword
    rw [String.toList_ofList] at dotless
    have whole : chain.takeWhile (· ≠ '.') = chain :=
      List.takeWhile_eq_self_iff.2 fun c m => decide_eq_true fun same => dotless (same ▸ m)
    rw [← whole, starts, String.ofList_toList] at keyword
    exact free keyword
  refine ⟨String.ofList chain, ?_, ?_⟩
  · rw [paths, List.mem_filter]
    exact ⟨List.mem_map.2 ⟨chain, List.mem_append_right _ m, rfl⟩, by simpa using word⟩
  · rw [Namespace.segments, String.toList_ofList, List.head?_map, Text.head?_splitOn, starts, Option.map_some,
      String.ofList_toList]

namespace Template

/-- In a template of texts and outputs the outputs are those of the nodes. Of each that has no brace that closes and no
line break in a string literal, every variable that is no keyword is the first segment of a path that the scan finds. -/
theorem mem_referenced_of_mem_outputs (template : Template) (content : ∀ node ∈ template.nodes, node.isContent) :
    (outputs template.source).map (·.2) = template.nodes.filterMap Node.output? ∧
      ∀ output ∈ outputs template.source, '}' ∉ output.1 → OneLine output.1 →
        ∀ x ∈ output.2.names, x ∉ Placeholder.keywords →
          ∃ path ∈ Placeholder.referenced template.source, (Namespace.segments path).head? = some x := by
  have parsed := template.parsed
  rw [parse] at parsed
  split at parsed
  · rename_i nodes closing last run
    cases Except.ok.inj parsed
    obtain ⟨found, read, same, seen⟩ := Parser.outputs_of_nodes run
    have whole : outputs template.source = found := by rw [outputs, read]
    rw [whole]
    refine ⟨same, fun output m brace line x hx free => ?_⟩
    obtain ⟨body, inside, shown⟩ := seen content output m brace line x hx
    obtain ⟨path, here, first⟩ := Placeholder.exists_mem_paths shown free
    refine ⟨path, ?_, first⟩
    rw [Placeholder.referenced, mem_ascending]
    exact List.mem_flatMap.2 ⟨body, inside, here⟩
  · cases parsed

/-- The scan is not led astray by what is open in a comment or quoted in a literal. -/
theorem mem_referenced_of_quotes_and_comment :
    let source := "Dear \x7b# \x7b\x7b old #\x7d\x7b\x7b- name | default(\"it's \x7b\\\" x\") ~ items[n].k -\x7d\x7d"
    ∃ template, Template.read "page" source = .ok template ∧ (∀ node ∈ template.nodes, node.isContent) ∧
      ∃ output ∈ outputs template.source, '}' ∉ output.1 ∧ OneLine output.1 ∧ "n" ∈ output.2.names ∧
        "n" ∉ Placeholder.keywords ∧
        ∃ path ∈ Placeholder.referenced template.source, (Namespace.segments path).head? = some "n" := by
  intro source
  have shown : (Template.read "page" source).toOption.any (fun template => template.nodes.all Node.isContent &&
      (outputs template.source).any (fun output =>
        decide ('}' ∉ output.1 ∧ OneLine output.1 ∧ "n" ∈ output.2.names))) := by
    rw [read_eq_readChars rfl]
    decide +kernel
  obtain ⟨template, read, shown⟩ := exists_of_read shown
  simp only [Bool.and_eq_true, List.all_eq_true, List.any_eq_true, decide_eq_true_eq] at shown
  obtain ⟨content, output, m, brace, line, named⟩ := shown
  have free : "n" ∉ Placeholder.keywords := by decide
  have found := (mem_referenced_of_mem_outputs template content).2 output m brace line "n" named free
  exact ⟨template, read, content, output, m, brace, line, named, free, found⟩

/-- In a literal with a line break the scan does not see where the literal ends. -/
theorem overlooked_of_line_break :
    let source := "\x7b\x7b \"\n\" ~ x ~ \"\" \x7d\x7d"
    ∃ template, Template.read "page" source = .ok template ∧ (∀ node ∈ template.nodes, node.isContent) ∧
      (∀ output ∈ outputs template.source, '}' ∉ output.1) ∧
      (∃ e, Node.output e ∈ template.nodes ∧ "x" ∈ e.names) ∧ "x" ∉ Placeholder.keywords ∧
      ¬ ∃ path ∈ Placeholder.referenced template.source, (Namespace.segments path).head? = some "x" := by
  intro source
  have shown : (Template.read "page" source).toOption.any (fun template => template.nodes.all Node.isContent &&
      (outputs template.source).all (fun output => decide ('}' ∉ output.1)) &&
      template.nodes.any (fun node => node.output?.any (fun e => decide ("x" ∈ e.names))) &&
      (Placeholder.referenced template.source).isEmpty) := by decide +kernel
  obtain ⟨template, read, shown⟩ := exists_of_read shown
  simp only [Bool.and_eq_true, List.all_eq_true, List.any_eq_true, decide_eq_true_eq, List.isEmpty_iff] at shown
  obtain ⟨⟨⟨content, brace⟩, node, m, named⟩, none⟩ := shown
  refine ⟨template, read, content, brace, ?_, by decide, ?_⟩
  · cases node with
    | output e => exact ⟨e, m, of_decide_eq_true named⟩
    | _ => cases named
  · rw [none]
    rintro ⟨_, m, _⟩
    cases m

end Template

end Folio
