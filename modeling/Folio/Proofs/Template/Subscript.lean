import Folio.Proofs.Analysis.Chain
import Folio.Proofs.Template.Hygiene
import Folio.Proofs.Template.Inheritance
import Folio.Proofs.Template.Markup

/-! Dotted paths in templates. A path is read segment by segment as a chain of lookups; but two indices in a row are
read as one number with a fraction, which is no segment. Only a path without such indices is shown, and found to be
missing, as it stands in the namespace. -/
namespace Folio

open Template

namespace Segment

/-- The key that a segment is read as if it stands by itself. -/
def key : Segment → Value
  | .name text _ => .string text
  | .index digits _ => .int (Int64.ofNat (Decimal.natOfDigits digits.toList))

/-- The segment is no index that is too large for an integer or has zeros in front. -/
def isExact : Segment → Bool
  | .name .. => true
  | .index digits _ => Decimal.natOfDigits digits.toList < 0x8000000000000000 &&
    (digits.toList.head? ≠ some '0' || digits.toList.length = 1)

/-- The keys that segments are read as. Two indices in a row are one number with a fraction. -/
def keys : List Segment → List Value
  | .index whole _ :: .index fraction _ :: rest =>
    .float (Decimal.floatOfDigits whole.toList fraction.toList) :: keys rest
  | segment :: rest => segment.key :: keys rest
  | [] => []

/-- No index stands behind an index. -/
def Spaced (segments : List Segment) : Prop :=
  segments.IsChain (fun first second => first.isNumber → second.isNumber = false)

instance : DecidablePred Spaced :=
  fun segments => inferInstanceAs (Decidable (segments.IsChain _))

/-- An index without zeros in front is written as its number is. -/
theorem toDigits_natOfDigits {digits : List Char} (hd : ∀ c ∈ digits, c.isDigit = true) (hne : digits ≠ [])
    (leading : digits.head? ≠ some '0' ∨ digits.length = 1) :
    Nat.toDigits 10 (Decimal.natOfDigits digits) = digits := by
  have padded := Decimal.padded_natOfDigits hd (List.length_pos_iff.2 hne)
  rw [Decimal.padded] at padded
  cases zeros : digits.length - (Nat.toDigits 10 (Decimal.natOfDigits digits)).length with
  | zero =>
    rw [zeros] at padded
    exact padded
  | succ n =>
    have some := List.length_pos_iff.2 (Nat.toDigits_ne_nil (n := Decimal.natOfDigits digits) (b := 10))
    rw [zeros] at padded
    rcases leading with first | one
    · rw [← padded] at first
      exact absurd rfl first
    · omega

theorem text_key {segment : Segment} (h : segment.isExact) : segment.key.text = segment.text := by
  cases segment with
  | name text proper => rfl
  | index digits proper =>
    rw [isExact, Bool.and_eq_true, decide_eq_true_eq, Bool.or_eq_true, decide_eq_true_eq, decide_eq_true_eq] at h
    have digits_eq := toDigits_natOfDigits (isDigit_of_isIndex proper) (ne_nil_of_isIndex proper) h.2
    have value : (Int64.ofNat (Decimal.natOfDigits digits.toList)).toInt = Decimal.natOfDigits digits.toList :=
      Int64.toInt_ofNat_of_lt h.1
    change String.ofList (Decimal.ofInt (Int64.ofNat (Decimal.natOfDigits digits.toList)).toInt) = digits
    rw [value, Decimal.ofInt, if_neg (by omega), Int.natAbs_natCast, digits_eq, String.ofList_toList]

theorem isSegment_key (segment : Segment) : segment.key.isSegment := by
  cases segment <;> rfl

theorem length_keys_le (segments : List Segment) : (keys segments).length ≤ segments.length := by
  fun_induction keys segments with
  | case1 => simp only [List.length_cons]; omega
  | case2 => simpa using ‹_›
  | case3 => exact Nat.le_refl 0

theorem keys_of_spaced {segments : List Segment} (h : Spaced segments) : keys segments = segments.map key := by
  fun_induction keys segments with
  | case1 whole _ fraction _ rest => simp [Spaced, isNumber] at h
  | case2 segment rest _ ih => rw [ih (List.IsChain.tail h), List.map_cons]
  | case3 => rfl

/-- Where two indices stand in a row for the first time, a number with a fraction is read. -/
theorem keys_of_not_spaced {segments : List Segment} (h : ¬ Spaced segments) :
    ∃ before index fraction after number, segments = before ++ index :: fraction :: after ∧
      keys segments = before.map key ++ .float number :: keys after := by
  fun_induction keys segments with
  | case1 whole hw fraction hf rest => exact ⟨[], _, _, rest, _, rfl, rfl⟩
  | case2 segment rest alone ih =>
    have apart : ∀ next ∈ rest.head?, segment.isNumber → next.isNumber = false := by
      intro next first
      obtain ⟨rest, rfl⟩ := List.head?_eq_some_iff.1 first
      cases segment with
      | name => exact nofun
      | index whole hw =>
        cases next with
        | name => exact fun _ => rfl
        | index fraction hf => exact (alone whole hw fraction hf rest rfl rfl).elim
    obtain ⟨before, index, fraction, after, number, rfl, read⟩ := ih fun spaced =>
      h (List.isChain_cons.2 ⟨apart, spaced⟩)
    exact ⟨segment :: before, index, fraction, after, number, rfl, by rw [read]; rfl⟩
  | case3 => exact absurd List.isChain_nil h

theorem length_keys_lt {segments : List Segment} (h : ¬ Spaced segments) :
    (keys segments).length < segments.length := by
  obtain ⟨before, index, fraction, after, number, rfl, read⟩ := keys_of_not_spaced h
  have few := length_keys_le after
  rw [read]
  simp only [List.length_append, List.length_map, List.length_cons]
  omega

theorem map_text_key {segments : List Segment} (precise : ∀ segment ∈ segments, segment.isExact) :
    (segments.map key).map Value.text = segments.map text := by
  rw [List.map_map]
  exact List.map_congr_left fun segment m => text_key (precise segment m)

theorem isSegment_of_mem_map_key {segments : List Segment} : ∀ value ∈ segments.map key, value.isSegment :=
  List.forall_mem_map.2 fun segment _ => segment.isSegment_key

end Segment

/-! ### Reading -/

namespace Template.Parser

open Segment (written keys)
open Folio.Expr (chain)

variable {text after gap : List Char} {inner : Parser Expr} {bound : Nat}

theorem takes_postfixStep_dot {key : Value} (h : Takes lookupKey text key after) (e : Expr) :
    Takes (postfixStep inner bound e) (".".toList ++ text) (some (.lookup e (.literal key))) after :=
  (takes_skipBlank_here (isSolid_cons rfl)).bind (.yes (takes_consume ".") (h.bind .pure))

theorem takes_lookupKey_name {name : String} (hn : isIdentifier name) (ends : EndsWord after) :
    Takes lookupKey (name.toList ++ after) (.string name) after := by
  have run := takes_identifier_here hn ends
  obtain ⟨c, letters, e, hc, -⟩ := isIdentStart_of_isIdentifier hn
  rw [e] at run ⊢
  refine .rest ?_
  dsimp only [List.cons_append]
  rw [if_neg fun digit => by rw [isIdentStart_of_isDigit digit] at hc; cases hc]
  exact run.bind .pure

theorem takes_lookupKey_number {digits : List Char} {key : Value} (hd : ∀ c ∈ digits, c.isDigit = true)
    (hne : digits ≠ []) (h : Takes number (digits ++ text) key after) : Takes lookupKey (digits ++ text) key after := by
  obtain ⟨c, digits, rfl⟩ := List.exists_cons_of_ne_nil hne
  refine .rest ?_
  dsimp only [List.cons_append]
  rw [if_pos (hd c List.mem_cons_self)]
  exact h

theorem isDigit_of_endsWord (ends : EndsWord text) : ∀ c ∈ text.head?, c.isDigit = false := by
  intro c first
  rw [Bool.eq_false_iff]
  intro digit
  have := ends c first
  simp [isIdentRest, Char.isAlphanum, digit] at this

theorem endsWord_written {segments : List Segment} (ends : EndsWord after) : EndsWord (written segments ++ after) := by
  cases segments with
  | nil => exact ends
  | cons segment segments =>
    rw [Segment.written_cons]
    rintro c ⟨⟩
    rfl

/-- An index ends in front of a name and in front of what ends the path. -/
theorem endsNumber_written {segments : List Segment} (named : ∀ segment ∈ segments.head?, segment.isNumber = false)
    (ends : EndsNumber after) : EndsNumber (written segments ++ after) := by
  cases segments with
  | nil => exact ends
  | cons segment segments =>
    cases segment with
    | index digits proper => cases named _ rfl
    | name text proper =>
      obtain ⟨c, letters, e, hc, -⟩ := isIdentStart_of_isIdentifier proper
      rw [Segment.written_cons]
      refine ⟨?_, fun d more same => ?_⟩
      · rintro d ⟨⟩
        rfl
      · rw [show (Segment.name text proper).text.toList = c :: letters from e] at same
        cases same
        rw [Bool.eq_false_iff]
        intro digit
        rw [isIdentStart_of_isDigit digit] at hc
        cases hc

/-- The loop of lookups goes on behind the segments with the chain of their keys. -/
theorem leadsTo_segments {segments : List Segment} (precise : ∀ segment ∈ segments, segment.isExact)
    (word : EndsWord after) (numeral : EndsNumber after) (name : String) (front : List Value) (rounds : Nat) :
    LeadsTo (extendWhile (postfixStep inner bound) (rounds + (keys segments).length) (chain name front))
      (written segments ++ after) (extendWhile (postfixStep inner bound) rounds (chain name (front ++ keys segments)))
      after := by
  have step {key : Value} {rest : List Segment} {text : List Char} (front : List Value)
      (one : Takes lookupKey text key (written rest ++ after)) :
      LeadsTo (extendWhile (postfixStep inner bound) (rounds + (keys rest).length + 1) (chain name front))
        (".".toList ++ text) (extendWhile (postfixStep inner bound) (rounds + (keys rest).length)
          (chain name (front ++ [key]))) (written rest ++ after) := by
    rw [Expr.chain_concat]
    exact extendWhile_of_takes (takes_postfixStep_dot one _)
  -- By induction on what is read, where two indices are one round.
  fun_induction keys segments generalizing front with
  | case1 whole hw fraction hf rest ih =>
    rw [List.forall_mem_cons, List.forall_mem_cons] at precise
    have one : Takes number (whole.toList ++ '.' :: (fraction.toList ++ (written rest ++ after))) _ _ :=
      takes_number_fraction (Segment.isDigit_of_isIndex hw) (Segment.isDigit_of_isIndex hf)
        (Segment.ne_nil_of_isIndex hf) (isDigit_of_endsWord (endsWord_written word))
    have run := step front (takes_lookupKey_number (Segment.isDigit_of_isIndex hw) (Segment.ne_nil_of_isIndex hw) one)
    have more := ih precise.2.2 (front ++ [.float (Decimal.floatOfDigits whole.toList fraction.toList)])
    rw [List.append_assoc] at more
    rw [Segment.written_cons, Segment.written_cons]
    simpa [Segment.text, Nat.add_assoc] using run.trans more
  | case2 segment rest alone ih =>
    rw [List.forall_mem_cons] at precise
    have one : Takes lookupKey (segment.text.toList ++ (written rest ++ after)) segment.key
        (written rest ++ after) := by
      cases segment with
      | name text proper => exact takes_lookupKey_name proper (endsWord_written word)
      | index digits proper =>
        have small := precise.1
        rw [Segment.isExact, Bool.and_eq_true, decide_eq_true_eq] at small
        have named : ∀ next ∈ rest.head?, next.isNumber = false := by
          intro next first
          obtain ⟨rest, rfl⟩ := List.head?_eq_some_iff.1 first
          cases next with
          | name => rfl
          | index fraction hf => exact (alone digits proper fraction hf rest rfl rfl).elim
        exact takes_lookupKey_number (Segment.isDigit_of_isIndex proper) (Segment.ne_nil_of_isIndex proper)
          (takes_number (Segment.isDigit_of_isIndex proper) rfl small.1 (endsNumber_written named numeral))
    have more := ih precise.2 (front ++ [segment.key])
    rw [List.append_assoc] at more
    rw [Segment.written_cons]
    simpa [Nat.add_assoc] using (step front one).trans more
  | case3 =>
    rw [List.append_nil]
    exact fun position => ⟨position, rfl⟩

end Template.Parser

/-! ### Outputs that stand alone -/

theorem ascending_eq_nil_iff {names : List String} : ascending names = [] ↔ names = [] := by
  simp only [List.eq_nil_iff_forall_not_mem, mem_ascending]

section Output

variable {source : String} {e : Expr} (parsed : parse source = .ok [.output e])
include parsed

theorem Template.render_output (setting : Setting) (name : String) (ns : Namespace) :
    (Template.read name source).bind (·.render setting ns) =
      (eval setting (.within setting (maxJumps - 1)) 0 (.ofNamespace ns) e).map Value.text := by
  have found : Template.read name source = .ok ⟨name, source, [.output e], parsed⟩ := by
    rw [Template.read]
    split
    · rename_i nodes same
      cases parsed.symm.trans same
      rfl
    · rename_i error same
      cases parsed.symm.trans same
  have jumps : maxJumps = maxJumps - 1 + 1 := by decide
  have text : ∀ place context, (renderNodes setting (.within setting (maxJumps - 1)) place [.output e] context).1 =
      (eval setting (.within setting (maxJumps - 1)) place.calls context e).map Value.text := by
    intro place context
    rw [renderNodes, renderNodes]
    simp only [pure_bind, String.append_empty, bind_pure]
    rw [renderNode_output]
  rw [found]
  change (document setting (.within setting maxJumps) _ 0 0 (.ofNamespace ns)).1 = _
  rw [document, layOut_of_parent?_eq_none rfl, jumps]
  exact text _ _

theorem Survey.run_output (ns : Namespace) (loader : Loader) :
    Survey.run source ns loader = ⟨[], .ok (ascending (e.missing ns []))⟩ := by
  have walked : (Node.walkAll ns [] [.output e]).1 = ⟨e.missing ns [] ++ [], []⟩ := rfl
  rw [Survey.run, parsed]
  simp only [walked, Survey.follow_nil, List.append_nil]

end Output

namespace DottedPath

open Segment (written keys Spaced)
open Folio.Expr (chain)

variable (path : DottedPath)

/-- What the path is read as. -/
def read : Expr :=
  chain path.root (keys path.rest)

section Reading

variable {path} (free : path.root ∉ reserved)
include free

theorem starts_text (rest : List Char) : Starts 9 (path.text.toList ++ [' '] ++ rest) := by
  have ends : EndsWord (written path.rest ++ ' ' :: rest) := by
    refine Parser.endsWord_written ?_
    rintro c ⟨⟩
    decide
  have leads : Token.Leads 9 (.word path.root) :=
    ⟨path.proper, fun _ same => free (same ▸ List.mem_cons_self)⟩
  have whole : path.text.toList ++ [' '] ++ rest = path.root.toList ++ (written path.rest ++ ' ' :: rest) := by
    simp [toList_text]
  rw [whole]
  exact starts_of_written (.word path.root) path.proper leads ends

variable (precise : ∀ segment ∈ path.rest, segment.isExact)
include precise

theorem at_read : Parser.At 9 (path.text.toList ++ [' ']) path.read := by
  refine Parser.at_of_reaches (by decide) fun depth bound gap rest hg hb stops => ?_
  have blank : Text.isBlank ' ' = true := by decide
  have word : EndsWord (' ' :: rest) := endsWord_of_isBlank (List.forall_mem_singleton.2 blank) nofun
  have keys_le := Segment.length_keys_le path.rest
  have rest_le := Segment.length_le_written path.rest
  simp only [Parser.Fits, toList_text, List.length_append] at hb
  obtain ⟨rounds, rfl, more⟩ : ∃ rounds, bound = rounds + (keys path.rest).length ∧ rest.length < rounds :=
    ⟨bound - (keys path.rest).length, by omega, by omega⟩
  have whole : gap ++ (path.text.toList ++ [' '] ++ rest) =
      gap ++ (path.root.toList ++ (written path.rest ++ ' ' :: rest)) := by simp [toList_text]
  have root : Parser.Takes (Parser.primary (Parser.expression depth) (rounds + (keys path.rest).length))
      (gap ++ (path.root.toList ++ (written path.rest ++ ' ' :: rest))) (.var path.root)
      (written path.rest ++ ' ' :: rest) := by
    rw [← Parser.nameOrConstant_of_notMem_reserved free]
    exact Parser.takes_primary_word hg path.proper (Parser.endsWord_written word)
  refine ⟨rounds, [' '], List.forall_mem_singleton.2 blank, more, ?_⟩
  rw [whole]
  exact (root.run_bind _).trans
    (Parser.leadsTo_segments precise word (Parser.endsNumber_of_isBlank blank) path.root [] rounds)

theorem parse_output : parse path.output = .ok [.output path.read] := by
  have h : Parser.At 0 (path.text.toList ++ [' ']) path.read :=
    (at_read free precise).below (le_refl 9) (starts_text free) (Nat.zero_le 9)
  have text : path.output =
      String.ofList ("\x7b\x7b".toList ++ ([' '] ++ (path.text.toList ++ [' '] ++ "\x7d\x7d".toList))) := by
    rw [← String.toList_inj, String.toList_ofList]
    simp [output]
  rw [text]
  exact Parser.parse_output h nofun (List.forall_mem_singleton.2 (by decide))

end Reading

/-! ### What paths lead to -/

/-- The path is shown as the text of what stands there, in every namespace. -/
def IsShown : Prop :=
  ∀ (setting : Setting) (name : String) (ns : Namespace),
    (Template.read name path.output).bind (·.render setting ns) = .ok ((ns.at? path.text).elim "" Value.text)

/-- Of the path alone nothing is found to be missing just if it has a value. -/
def IsReported : Prop :=
  ∀ (ns : Namespace) (loader : Loader),
    (Survey.run path.output ns loader).outcome = .ok [] ↔ ns.hasValueAt path.text

section Leads

variable {path} (precise : ∀ segment ∈ path.rest, segment.isExact)
include precise

theorem path?_read_iff : path.read.path? = some path.text ↔ Spaced path.rest := by
  constructor
  · intro hp
    by_contra spaced
    obtain ⟨before, index, fraction, after, number, -, same⟩ := Segment.keys_of_not_spaced spaced
    have pathless : path.read.path? = none := by
      rw [read, same]
      exact Expr.path?_chain_eq_none (List.mem_append_right _ List.mem_cons_self) rfl
    rw [pathless] at hp
    cases hp
  · intro spaced
    rw [read, Segment.keys_of_spaced spaced, Expr.path?_chain Segment.isSegment_of_mem_map_key,
      Segment.map_text_key precise]
    rfl

variable (free : path.root ∉ reserved)
include free

theorem isShown_of_spaced (spaced : Spaced path.rest) : path.IsShown := by
  intro setting name ns
  rw [Template.render_output (parse_output free precise), read, Expr.eval_chain (Context.within_ofNamespace ns),
    Segment.keys_of_spaced spaced, Segment.map_text_key precise, ← ns.getD_at?_of_segments path.segments_text]
  cases ns.at? path.text with
  | none => rfl
  | some value => rfl

/-- The keys that are read are too few to come to the end of the path. -/
theorem not_isShown (spaced : ¬ Spaced path.rest) : ¬ path.IsShown := by
  let ns := Namespace.single path.root (path.rest.map Segment.text)
  have one : ns.at? path.text = some (.int 1) := by
    rw [Namespace.at?_single, path.segments_text, if_pos List.prefix_rfl, List.drop_length]
    rfl
  intro shown
  have text := shown (.alone .english) inlineName ns
  have digit : (Value.int 1).text = "1" := by decide
  rw [Template.render_output (parse_output free precise), read, Expr.eval_chain (Context.within_ofNamespace ns), one,
    Option.elim_some, digit, Namespace.get?_single, if_pos rfl, Option.getD_some, Namespace.descend_nested] at text
  split at text
  · have few := Segment.length_keys_lt spaced
    have some : (path.rest.map Segment.text).drop ((keys path.rest).map Value.text).length ≠ [] := by
      rw [Ne, List.drop_eq_nil_iff, List.length_map, List.length_map]
      omega
    obtain ⟨key, more, rest⟩ := List.exists_cons_of_ne_nil some
    rw [rest] at text
    exact Namespace.text_nested_ne key more (Except.ok.inj text)
  · exact absurd (Except.ok.inj text : "" = "1") (by decide)

theorem isReported_of_spaced (spaced : Spaced path.rest) : path.IsReported := by
  intro ns loader
  rw [Survey.run_output (parse_output free precise), read, Segment.keys_of_spaced spaced, Except.ok.injEq,
    ascending_eq_nil_iff, Expr.missing_chain_eq_nil_iff Segment.isSegment_of_mem_map_key, Segment.map_text_key precise]
  rfl

/-- Up to the first of two indices in a row everything may be there, and what is missing behind it is not reported. -/
theorem not_isReported (spaced : ¬ Spaced path.rest) : ¬ path.IsReported := by
  obtain ⟨before, index, fraction, after, number, split, same⟩ := Segment.keys_of_not_spaced spaced
  let ns := Namespace.single path.root (before.map Segment.text)
  have precise_before : ∀ segment ∈ before, segment.isExact := fun segment m =>
    precise segment (split ▸ List.mem_append_left _ m)
  have lacks : ns.hasValueAt path.text = false := by
    rw [Bool.eq_false_iff, Ne, Namespace.hasValueAt_single, path.segments_text, split]
    intro start
    have := start.length_le
    simp only [List.length_cons, List.length_map, List.length_append] at this
    omega
  have nothing : path.read.missing ns [] = [] := by
    rw [read, same, Expr.missing_chain_append rfl, Expr.missing_chain_eq_nil_iff Segment.isSegment_of_mem_map_key,
      Segment.map_text_key precise_before, Namespace.hasValueAt_single, path.segments_dotted]
  intro reported
  have value := (reported ns ⟨fun _ => .ok none, 0⟩).1
  rw [Survey.run_output (parse_output free precise), nothing, lacks] at value
  exact absurd (value rfl) nofun

end Leads

/-- A dotted path is one output. It is read as itself, shown as what stands there, and found to be missing just if it
has no value, if and only if no index stands behind an index. -/
theorem faithful_iff_spaced (precise : ∀ segment ∈ path.rest, segment.isExact) (free : path.root ∉ reserved) :
    ∃ e, parse path.output = .ok [.output e] ∧ (e.path? = some path.text ↔ Spaced path.rest) ∧
      (path.IsShown ↔ Spaced path.rest) ∧ (path.IsReported ↔ Spaced path.rest) := by
  refine ⟨path.read, parse_output free precise, path?_read_iff precise,
    ⟨fun shown => ?_, isShown_of_spaced precise free⟩, ⟨fun reported => ?_, isReported_of_spaced precise free⟩⟩
  · by_contra spaced
    exact not_isShown precise free spaced shown
  · by_contra spaced
    exact not_isReported precise free spaced reported

/-- An index between names is followed, and of two indices in a row the second is not reported. -/
theorem faithful_of_alternating :
    let items : DottedPath := ⟨"items", by decide, [.index "0" (by decide), .name "name" (by decide),
      .index "12" (by decide)]⟩
    let cell : DottedPath := ⟨"a", by decide, [.index "0" (by decide), .index "1" (by decide)]⟩
    items.output = "\x7b\x7b items.0.name.12 \x7d\x7d" ∧ items.IsShown ∧ items.IsReported ∧
      cell.output = "\x7b\x7b a.0.1 \x7d\x7d" ∧ ¬ cell.IsShown ∧ ¬ cell.IsReported := by
  intro items cell
  obtain ⟨_, -, -, shown, reported⟩ := faithful_iff_spaced items (by decide) (by decide)
  obtain ⟨_, -, -, hidden, silent⟩ := faithful_iff_spaced cell (by decide) (by decide)
  have spaced : Spaced items.rest := by decide
  have crowded : ¬ Spaced cell.rest := by decide
  exact ⟨by decide, shown.2 spaced, reported.2 spaced, by decide, fun h => crowded (hidden.1 h),
    fun h => crowded (silent.1 h)⟩

/-- The second index is read as the fraction of the first, so that nothing stands at its key and nothing is reported. -/
theorem silent_of_second_index :
    let source := "\x7b\x7b a.0.1 \x7d\x7d"
    let empty : Namespace := .ofList [("a", .seq [])]
    let full : Namespace := .ofList [("a", .seq [.seq [.string "x", .string "y"]])]
    (Survey.run source empty ⟨fun _ => .ok none, 0⟩).outcome.toOption = some [] ∧ empty.hasValueAt "a.0.1" = false ∧
      (Template.renderText source full .english).toOption = some "" ∧ (full.at? "a.0.1").map Value.text = some "y" := by
  decide +kernel

end DottedPath

end Folio
