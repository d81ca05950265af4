import Folio.Template.Parser.Node

/-! Identifiers. Every variable of an expression that the parser reads is one: a letter or an underscore,
and then letters, digits and underscores. So it has no dot and is a path of one segment. -/
namespace Folio

namespace Template

/-- The text is an identifier. -/
def isIdentifier (name : String) : Bool :=
  match name.toList with
  | c :: rest => isIdentStart c && rest.all isIdentRest
  | [] => false

theorem isIdentRest_of_isIdentStart {c : Char} (h : isIdentStart c) : isIdentRest c := by
  simp only [isIdentStart, isIdentRest, Char.isAlphanum, Bool.or_eq_true] at h ⊢
  exact h.elim (fun h => .inl (.inl h)) .inr

theorem isIdentRest_of_isIdentifier {name : String} (h : isIdentifier name) : ∀ c ∈ name.toList, isIdentRest c := by
  rw [isIdentifier] at h
  split at h
  · rename_i c rest e
    rw [Bool.and_eq_true, List.all_eq_true] at h
    rw [e, List.forall_mem_cons]
    exact ⟨isIdentRest_of_isIdentStart h.1, h.2⟩
  · cases h

theorem dot_notMem_of_isIdentifier {name : String} (h : isIdentifier name) : '.' ∉ name.toList :=
  fun m => absurd (isIdentRest_of_isIdentifier h '.' m) (by decide)

theorem isIdentifier_of_identifier? {text rest : List Char} {name : String}
    (h : identifier? text = some (name, rest)) : isIdentifier name := by
  rw [identifier?] at h
  split at h
  · split at h
    · rename_i start
      obtain ⟨rfl, -⟩ := Prod.mk.inj (Option.some.inj h)
      simp [isIdentifier, start]
    · cases h
  · cases h

end Template

namespace Expr

mutual

/-- The variables of an expression, in the order of the text. -/
def names : Expr → List String
  | .literal _ => []
  | .var name => [name]
  | .lookup left right | .and left right | .or left right | .compare _ left right
  | .binary _ left right => names left ++ names right
  | .not inner | .isDefined inner | .neg inner => names inner
  | .filter _ target args | .call target args | .test _ target args _ =>
    names target ++ namesOfAll args
  | .list items => namesOfAll items
  | .dict entries => namesOfEntries entries
  | .inlineIf value condition otherwise =>
    names value ++ names condition ++ namesOfOption otherwise

def namesOfAll : List Expr → List String
  | [] => []
  | e :: es => names e ++ namesOfAll es

def namesOfEntries : List (Expr × Expr) → List String
  | [] => []
  | (key, value) :: entries => names key ++ names value ++ namesOfEntries entries

def namesOfOption : Option Expr → List String
  | none => []
  | some e => names e

end

/-- Every variable of the expression is an identifier. -/
def Named (e : Expr) : Prop :=
  ∀ name ∈ e.names, Template.isIdentifier name

theorem namesOfAll_eq (es : List Expr) : namesOfAll es = es.flatMap names := by
  induction es with
  | nil => simp [namesOfAll]
  | cons e es ih => simp [namesOfAll, ih]

theorem namesOfEntries_eq (entries : List (Expr × Expr)) :
    namesOfEntries entries = entries.flatMap (fun (key, value) => key.names ++ value.names) := by
  induction entries with
  | nil => simp [namesOfEntries]
  | cons entry entries ih => simp [namesOfEntries, ih]

example : names (.list [.var "a", .call (.var "f") [.var "b"]]) = ["a", "f", "b"] := by cbv

end Expr

namespace Template.Parser

variable {α β : Type}

/-- Whatever the parser reads has the property. -/
def Yields (p : Parser α) (Q : α → Prop) : Prop :=
  ∀ ⦃cursor value after⦄, p cursor = .ok (value, after) → Q value

theorem Yields.pure {Q : α → Prop} {value : α} (h : Q value) : Yields (pure value) Q := by
  intro cursor v after e
  cases e
  exact h

theorem Yields.bind {Q : α → Prop} {R : β → Prop} {p : Parser α} {f : α → Parser β}
    (hp : Yields p Q) (hf : ∀ value, Q value → Yields (f value) R) : Yields (p >>= f) R := by
  intro cursor v after e
  change (p cursor).bind (fun (value, next) => f value next) = _ at e
  cases h : p cursor with
  | error fault => rw [h] at e; cases e
  | ok read => rw [h] at e; exact hf _ (hp h) e

/-- What is read first does not matter. -/
theorem Yields.after {R : β → Prop} {p : Parser α} {f : α → Parser β}
    (hf : ∀ value, Yields (f value) R) : Yields (p >>= f) R :=
  Yields.bind (Q := fun _ => True) (fun _ _ _ _ => trivial) (fun value _ => hf value)

theorem Yields.fail {Q : α → Prop} (cause : ParseError.Cause) : Yields (fail cause) Q := by
  intro cursor v after e
  cases e

theorem Yields.ite {Q : α → Prop} {p q : Parser α} {b : Bool} (hp : Yields p Q) (hq : Yields q Q) :
    Yields (if b then p else q) Q := by
  cases b
  · exact hq
  · exact hp

theorem Yields.extendWhile {Q : α → Prop} {step : α → Parser (Option α)}
    (hs : ∀ value, Q value → Yields (step value) (fun longer => ∀ v ∈ longer, Q v)) :
    ∀ (bound : Nat) (value : α), Q value → Yields (extendWhile step bound value) Q
  | 0, _, _ => .fail _
  | bound + 1, value, h => by
    refine .bind (hs value h) fun longer hl => ?_
    cases longer with
    | none => exact .pure h
    | some v => exact extendWhile hs bound v (hl v rfl)

theorem Yields.listUntil {Q : α → Prop} {item : Parser α} (close : String) (hi : Yields item Q) :
    ∀ bound : Nat, Yields (listUntil close item bound) (fun items => ∀ v ∈ items, Q v)
  | 0 => .fail _
  | bound + 1 => by
    refine .after fun _ => .after fun closed => .ite (.pure (by simp)) ?_
    refine .bind hi fun v h => .after fun _ => .after fun more => .ite ?_ ?_
    · exact .bind (listUntil close hi bound) fun vs hs => .pure (List.forall_mem_cons.2 ⟨h, hs⟩)
    · exact .after fun _ => .pure (by simpa using h)

theorem yields_identifier : Yields identifier (fun name => isIdentifier name) := by
  refine .after fun _ => .after fun text => ?_
  split
  · rename_i h
    exact .after fun _ => .pure (isIdentifier_of_identifier? h)
  · refine .after fun text => ?_
    split
    · exact .fail _
    · exact .fail _

/-! ### Levels -/

section Levels

open Folio.Expr (Named)

theorem named_nameOrConstant {name : String} (h : isIdentifier name) : Named (nameOrConstant name) := by
  simp only [nameOrConstant]
  split
  all_goals simp [Named, Expr.names, h]

variable {inner : Parser Expr} (hi : Yields inner Named) (bound : Nat)
include hi

theorem yields_callArguments : Yields (callArguments inner bound) (fun es => ∀ e ∈ es, Named e) :=
  .after fun _ => .listUntil _ (.after fun _ => hi) bound

theorem yields_optionalArguments :
    Yields (optionalArguments inner bound) (fun es => ∀ e ∈ es, Named e) :=
  .after fun _ => .after fun _ => .ite (yields_callArguments hi bound) (.pure (by simp))

theorem yields_dictEntry : Yields (dictEntry inner) (fun entry => Named entry.1 ∧ Named entry.2) :=
  .bind hi fun _ hk => .after fun _ => .after fun _ => .bind hi fun _ hv => .pure ⟨hk, hv⟩

theorem yields_primary : Yields (primary inner bound) Named := by
  have literal (value : Value) : Named (.literal value) := by simp [Named, Expr.names]
  refine .after fun _ => .after fun text => ?_
  split
  · exact .fail _
  · exact .after fun _ => .bind hi fun e he => .after fun _ => .after fun _ => .pure he
  · refine .after fun _ => .bind (.listUntil _ hi bound) fun items h => .pure ?_
    simpa [Named, Expr.names, Expr.namesOfAll_eq] using fun name e m => h e m name
  · refine .after fun _ => .bind (.listUntil _ (yields_dictEntry hi) bound) fun entries h => .pure ?_
    simp only [Named, Expr.names, Expr.namesOfEntries_eq, List.mem_flatMap, List.mem_append]
    rintro name ⟨entry, m, hk | hv⟩
    · exact (h entry m).1 name hk
    · exact (h entry m).2 name hv
  · refine .ite (.after fun s => .pure (literal _)) (.ite (.after fun v => .pure (literal v)) ?_)
    exact .ite (.bind yields_identifier fun name h => .pure (named_nameOrConstant h)) (.fail _)

theorem yields_test {target : Expr} (ht : Named target) :
    Yields (test inner bound target) Named := by
  refine .after fun negated => .after fun name => ?_
  have either (b : Bool) : Named (if b then .isDefined target else .not (.isDefined target)) ∧
      Named (if b then .not (.isDefined target) else .isDefined target) := by
    cases b <;> exact ⟨ht, ht⟩
  split
  · exact .pure (either negated).2
  · split
    · exact .pure (either negated).1
    · refine .bind (yields_optionalArguments hi bound) fun args h => .pure ?_
      simp only [Named, Expr.names, Expr.namesOfAll_eq, List.mem_append, List.mem_flatMap]
      rintro name (m | ⟨e, he, m⟩)
      · exact ht name m
      · exact h e he name m

theorem yields_postfixStep {e : Expr} (he : Named e) :
    Yields (postfixStep inner bound e) (fun longer => ∀ e ∈ longer, Named e) := by
  have applied {args : List Expr} (ha : ∀ e ∈ args, Named e) :
      ∀ name ∈ e.names ++ args.flatMap Expr.names, isIdentifier name := by
    simp only [List.mem_append, List.mem_flatMap]
    rintro name (m | ⟨arg, h, m⟩)
    · exact he name m
    · exact ha arg h name m
  refine .after fun _ => .after fun _ => .ite ?_ (.after fun _ => .ite ?_ (.after fun _ => .ite ?_ ?_))
  · refine .after fun key => .pure ?_
    simpa [Named, Expr.names] using he
  · refine .bind hi fun key hk => .after fun _ => .after fun _ => .pure ?_
    simpa [Named, Expr.names, or_imp, forall_and] using And.intro he hk
  · refine .bind (yields_callArguments hi bound) fun args ha => .pure ?_
    simpa [Named, Expr.names, Expr.namesOfAll_eq] using applied ha
  · refine .after fun _ => .ite ?_ (.after fun _ => .ite ?_ (.pure (by simp)))
    · refine .after fun name => .bind (yields_optionalArguments hi bound) fun args ha => .pure ?_
      simpa [Named, Expr.names, Expr.namesOfAll_eq] using applied ha
    · exact .bind (yields_test hi bound he) fun e h => .pure (by simpa using h)

theorem yields_postfixed : Yields (postfixed inner bound) Named :=
  .bind (yields_primary hi bound) fun e he =>
    .extendWhile (fun _ h => yields_postfixStep hi bound h) bound e he

theorem yields_signed : ∀ n : Nat, Yields (signed inner bound n) Named
  | 0 => .fail _
  | n + 1 => .after fun _ => .after fun _ => .ite
    (.bind (yields_signed n) fun _ h => .pure h)
    (.after fun _ => .ite (yields_signed n) (yields_postfixed hi bound))

omit hi in
theorem yields_operator {operand : Parser Expr} (ho : Yields operand Named) {left : Expr}
    (hl : Named left) (make : Expr → Expr → Expr)
    (hm : ∀ l r, (make l r).names = l.names ++ r.names) :
    Yields (do return some (make left (← operand))) (fun longer => ∀ e ∈ longer, Named e) := by
  refine .bind ho fun right hr => .pure ?_
  simpa [Named, hm, or_imp, forall_and] using And.intro hl hr

theorem yields_product : Yields (product inner bound) Named := by
  have operand := yields_signed hi bound bound
  refine .bind operand fun e he => .extendWhile (fun left hl => .after fun op => ?_) bound e he
  cases op with
  | none => exact .pure (by simp)
  | some op => exact yields_operator operand hl _ (fun _ _ => by simp [Expr.names])

theorem yields_sum : Yields (sum inner bound) Named := by
  have operand := yields_product hi bound
  refine .bind operand fun e he => .extendWhile (fun left hl => ?_) bound e he
  have step (op : Operator) := yields_operator operand hl (.binary op)
    (fun _ _ => by simp [Expr.names])
  refine .after fun _ => .after fun _ => .ite (step .add) (.after fun _ => .ite (.pure (by simp)) ?_)
  exact .after fun _ => .ite (step .sub) (.pure (by simp))

theorem yields_join : Yields (join inner bound) Named := by
  have operand := yields_sum hi bound
  refine .bind operand fun e he => .extendWhile (fun left hl => ?_) bound e he
  refine .after fun _ => .after fun _ => .ite ?_ (.pure (by simp))
  exact yields_operator operand hl _ (fun _ _ => by simp [Expr.names])

theorem yields_compared : Yields (compared inner bound) Named := by
  have operand := yields_join hi bound
  refine .bind operand fun e he => .extendWhile (fun left hl => .after fun op => ?_) bound e he
  cases op with
  | none => exact .pure (by simp)
  | some op => exact yields_operator operand hl _ (fun _ _ => by simp [Expr.names])

theorem yields_negation : ∀ n : Nat, Yields (negation inner bound n) Named
  | 0 => .fail _
  | n + 1 => .after fun _ => .ite
    (.bind (yields_negation n) fun _ h => .pure h) (yields_compared hi bound)

theorem yields_conjunction : Yields (conjunction inner bound) Named := by
  have operand := yields_negation hi bound bound
  refine .bind operand fun e he => .extendWhile (fun left hl => ?_) bound e he
  refine .after fun _ => .ite ?_ (.pure (by simp))
  exact yields_operator operand hl _ (fun _ _ => by simp [Expr.names])

theorem yields_disjunction : Yields (disjunction inner bound) Named := by
  have operand := yields_conjunction hi bound
  refine .bind operand fun e he => .extendWhile (fun left hl => ?_) bound e he
  refine .after fun _ => .ite ?_ (.pure (by simp))
  exact yields_operator operand hl _ (fun _ _ => by simp [Expr.names])

theorem yields_conditional : Yields (conditional inner bound) Named := by
  refine .bind (yields_disjunction hi bound) fun value hv => .after fun _ => .ite ?_ (.pure hv)
  refine .bind (yields_disjunction hi bound) fun condition hc => .after fun _ => .ite ?_ (.pure ?_)
  · refine .bind hi fun otherwise ho => .pure ?_
    simpa [Named, Expr.names, Expr.namesOfOption, or_imp, forall_and] using ⟨hv, hc, ho⟩
  · simpa [Named, Expr.names, Expr.namesOfOption, or_imp, forall_and] using And.intro hv hc

end Levels

/-- The variables of an expression that was read are identifiers. -/
theorem yields_expression : ∀ bound : Nat, Yields (expression bound) Expr.Named
  | 0 => .fail _
  | bound + 1 => yields_conditional (yields_expression bound) (bound + 1)

end Template.Parser

end Folio
