import Folio.Proofs.Analysis.Crossing
import Folio.Proofs.Template.ErrorPosition

/-! The scan keeps in step with the parser. Every part of an expression that is read leads from one stage to another,
and the scan sees the variables in it that were not known before. -/
namespace Folio.Template.Parser

open Placeholder (Stage Crosses Spans isMark)

variable {α β : Type} {text after : List Char} {known : List String} {start : Stage}

/-! ### Keeping in step -/

/-- What the parser passes over leads to the stage of its value, with the names in it. -/
def ScansAt (known : List String) (start : Stage) (text : List Char) (p : Parser α) (names : α → List String)
    (stop : α → Stage) : Prop :=
  ∀ trimNext position value next, p { rest := text, trimNext, position } = .ok (value, next) →
    Spans start text next.rest known (names value) (stop value)

def Scans (known : List String) (start : Stage) (p : Parser α) (names : α → List String) (stop : α → Stage) : Prop :=
  ∀ text, ScansAt known start text p names stop

/-- Nothing is named. -/
def nameless (_ : α) : List String :=
  []

variable {named : α → List String} {stop : α → Stage}

namespace ScansAt

theorem pure {value : α} (same : start = stop value) (h : named value ⊆ known) :
    ScansAt known start text (pure value) named stop := by
  rintro trimNext position _ _ ⟨⟩
  rw [← same]
  exact ⟨[], rfl, .here h⟩

/-- Where an operand may follow, an expression may have ended as well. -/
theorem ended {value : α} (h : named value ⊆ known) :
    ScansAt known .fresh text (Pure.pure value) named (fun _ => .joined) := by
  rintro trimNext position _ _ ⟨⟩
  exact ⟨[], rfl, .settle (.here h)⟩

theorem fail {cause : ParseError.Cause} : ScansAt known start text (fail cause) named stop :=
  nofun

theorem goto_fail {passed : List Char} {cause : ParseError.Cause} :
    ScansAt known start text (Parser.goto passed after >>= fun _ => Parser.fail cause) named stop :=
  nofun

theorem rest {f : List Char → Parser α} (h : ScansAt known start text (f text) named stop) :
    ScansAt known start text (rest >>= f) named stop :=
  h

theorem bind {p : Parser β} {f : β → Parser α} {first : β → List String} {mid : β → Stage}
    (hp : ScansAt known start text p first mid)
    (hf : ∀ value after, ScansAt (first value ++ known) (mid value) after (f value) named stop) :
    ScansAt known start text (p >>= f) named stop := by
  intro trimNext position value next run
  obtain ⟨found, between, front, back⟩ := exists_of_bind run
  apply (hp trimNext position found between front).trans
  exact hf found between.rest between.trimNext between.position value next back

section Moves

variable {f : Unit → Parser α} {passed : List Char} {more : List String} {mid : Stage}

theorem goto (cut : passed ++ after = text) (crossed : Crosses start passed after known more mid)
    (h : ScansAt (more ++ known) mid after (f ()) named stop) :
    ScansAt known start text (goto passed after >>= f) named stop := by
  intro trimNext position value next run
  have front : Spans start text after known more mid := ⟨passed, cut, crossed⟩
  exact front.trans (h trimNext _ value next run)

theorem goto_front (reached : Spans start text after known more mid)
    (h : ScansAt (more ++ known) mid after (f ()) named stop) :
    ScansAt known start text (Parser.goto (front text after) after >>= f) named stop := by
  obtain ⟨passed, rfl, crossed⟩ := reached
  rw [front_left]
  exact goto rfl crossed h

theorem pass {token : String} (cut : token.toList ++ after = text)
    (crossed : Crosses start token.toList after known more mid)
    (h : ScansAt (more ++ known) mid after (f ()) named stop) :
    ScansAt known start text (pass token after >>= f) named stop := by
  intro trimNext position value next run
  have front : Spans start text after known more mid := ⟨token.toList, cut, crossed⟩
  exact front.trans (h trimNext _ value next run)

end Moves

theorem ite {c : Prop} [Decidable c] {p q : Parser α} (hp : ScansAt known start text p named stop)
    (hq : ScansAt known start text q named stop) : ScansAt known start text (if c then p else q) named stop := by
  split
  · exact hp
  · exact hq

end ScansAt

namespace Scans

theorem pure {value : α} (same : start = stop value) (h : named value ⊆ known) :
    Scans known start (pure value) named stop :=
  fun _ => .pure same h

theorem ended {value : α} (h : named value ⊆ known) :
    Scans known .fresh (Pure.pure value) named (fun _ => .joined) :=
  fun _ => .ended h

theorem fail {cause : ParseError.Cause} : Scans known start (fail cause) named stop :=
  fun _ => .fail

theorem bind {p : Parser β} {f : β → Parser α} {first : β → List String} {mid : β → Stage}
    (hp : Scans known start p first mid) (hf : ∀ value, Scans (first value ++ known) (mid value) (f value) named stop) :
    Scans known start (p >>= f) named stop :=
  fun text => .bind (hp text) hf

theorem ite {c : Prop} [Decidable c] {p q : Parser α} (hp : Scans known start p named stop)
    (hq : Scans known start q named stop) : Scans known start (if c then p else q) named stop :=
  fun text => .ite (hp text) (hq text)

/-- Behind what has no names. -/
theorem seq {p : Parser β} {f : β → Parser α} {mid : Stage} (hp : Scans known start p nameless (fun _ => mid))
    (hf : ∀ value, Scans known mid (f value) named stop) : Scans known start (p >>= f) named stop :=
  .bind hp hf

/-- A branch on what a parser has found. -/
theorem choice {test : Parser Bool} {p q : Parser α} {yes no : Stage}
    (ht : Scans known start test nameless (fun found => cond found yes no)) (hp : Scans known yes p named stop)
    (hq : Scans known no q named stop) : Scans known start (do if ← test then p else q) named stop :=
  .bind ht fun
    | true => hp
    | false => hq

end Scans

/-- Of an operand the scan sees all variables. -/
def ScansOperand (p : Parser Expr) : Prop :=
  ∀ known, Scans known .fresh p Expr.names (fun _ => .joined)

/-- Of what is added to an expression the scan sees all variables. -/
def ScansStep (step : Expr → Parser (Option Expr)) : Prop :=
  ∀ e known, e.names ⊆ known → Scans known .joined (step e) Expr.namesOfOption (fun _ => .joined)

theorem ScansStep.extendWhile {step : Expr → Parser (Option Expr)} (hs : ScansStep step) (rounds : Nat) {e : Expr}
    (he : e.names ⊆ known) : Scans known .joined (extendWhile step rounds e) Expr.names (fun _ => .joined) := by
  induction rounds generalizing e known with
  | zero => exact .fail
  | succ rounds ih =>
    refine .bind (hs e known he) fun longer => ?_
    cases longer with
    | some longer => exact ih (List.subset_append_left _ _)
    | none => exact .pure rfl (List.Subset.trans he (List.subset_append_right _ _))

/-! ### Tokens -/

/-- The token consists of marks. -/
def IsSymbol (token : String) : Prop :=
  token.toList ≠ [] ∧ token.toList.all isMark

instance : DecidablePred IsSymbol :=
  fun token => inferInstanceAs (Decidable (token.toList ≠ [] ∧ token.toList.all isMark))

theorem scans_peek (token : String) : Scans known start (peek token) nameless (fun found => cond found start start) :=
  fun _ => .rest (.pure (Bool.cond_self _ _).symm (List.nil_subset _))

theorem scans_atEnd : Scans known start atEnd nameless (fun found => cond found start start) :=
  fun _ => .rest (.pure (Bool.cond_self _ _).symm (List.nil_subset _))

theorem scansAt_consume {token : String} {mid : Stage}
    (h : ∀ after, token.toList ++ after = text → Crosses start token.toList after known [] mid) :
    ScansAt known start text (consume token) nameless (fun taken => cond taken mid start) := by
  refine .rest ?_
  split
  · rename_i after found
    have cut := List.isPrefixOf?_eq_some_iff_append_eq.1 found
    exact .pass cut (h after cut) (.pure rfl (List.nil_subset _))
  · exact .pure rfl (List.nil_subset _)

section Ready

variable [start.Ready]

theorem scans_skipBlank : Scans known start skipBlank nameless (fun _ => start) := by
  refine fun text => .rest ?_
  have blank : IsBlank (text.takeWhile Text.isBlank) := fun _ m => List.mem_takeWhile_imp m
  have crossed : Crosses start (text.takeWhile Text.isBlank) (text.dropWhile Text.isBlank) known [] start :=
    .blanks blank
  exact .goto List.takeWhile_append_dropWhile crossed (.pure rfl (List.nil_subset _))

theorem scans_consume {token : String} (ht : IsSymbol token) :
    Scans known start (consume token) nameless (fun taken => cond taken .fresh start) :=
  fun _ => scansAt_consume fun _ _ => .marks (List.all_eq_true.1 ht.2) ht.1

theorem scans_consumeWord {keyword : String} (hk : isIdentifier keyword) :
    Scans known start (consumeWord keyword) nameless (fun taken => cond taken .fresh start) := by
  refine .seq scans_skipBlank fun _ text => .rest ?_
  split
  · rename_i found
    obtain ⟨rest, rfl, ends⟩ := startsWithWord_iff.1 found
    refine scansAt_consume fun after cut => ?_
    rw [List.append_cancel_left cut]
    exact .word hk ends
  · exact .pure rfl (List.nil_subset _)

theorem scans_expect {token : String} (ht : IsSymbol token) :
    Scans known start (expect token) nameless (fun _ => .fresh) := by
  refine .choice (scans_consume ht) (.pure rfl (List.nil_subset _)) (.choice scans_atEnd .fail ?_)
  exact fun _ => .rest .fail

end Ready

theorem scans_consumeDot : Scans known .joined (consume ".") nameless (fun taken => cond taken .joined .joined) :=
  fun _ => scansAt_consume fun _ _ => .dot

theorem scans_consumeBar : Scans known .joined (consume "|") nameless (fun taken => cond taken .pipe .joined) :=
  fun _ => scansAt_consume fun _ _ => .bar

/-- A name is passed with the blanks before it. -/
theorem scans_identifier {named : String → List String} (h : ∀ (gap : List Char) (name : String) (after : List Char),
      IsBlank gap → isIdentifier name → EndsWord after →
        Crosses start (gap ++ name.toList) after known (named name) .joined) :
    Scans known start identifier named (fun _ => .joined) := by
  intro text trimNext position name next run
  have found := identifier?_of_identifier run
  exact ⟨_, identifier?_append found, h _ name next.rest (fun _ m => List.mem_takeWhile_imp m)
    (isIdentifier_of_identifier? found) (endsWord_of_identifier? found)⟩

theorem scans_variable : Scans known .fresh identifier (fun name => [name]) (fun _ => .joined) :=
  scans_identifier fun _ _ _ gap proper ends => .variableName proper gap ends

theorem scans_member : Scans known .joined identifier nameless (fun _ => .joined) :=
  scans_identifier fun _ _ _ gap proper _ => .memberName proper gap

theorem scans_filterName : Scans known .pipe identifier nameless (fun _ => .joined) :=
  scans_identifier fun _ _ _ gap proper _ => .filterName proper gap

/-! ### Lists -/

theorem scans_listUntil {item : Parser α} (hi : ∀ known, Scans known .fresh item named (fun _ => .joined))
    {close : String} (hc : IsSymbol close) (rounds : Nat) :
    Scans known .fresh (listUntil close item rounds) (fun items => items.flatMap named) (fun _ => .joined) := by
  induction rounds generalizing known with
  | zero => exact .fail
  | succ rounds ih =>
    refine .seq scans_skipBlank fun _ => .choice (scans_consume hc) ?_ ?_
    · exact .ended (List.nil_subset _)
    refine .bind (hi _) fun first => .seq scans_skipBlank fun _ => ?_
    refine .choice (scans_consume (by decide)) ?_ ?_
    · refine .bind ih fun more => .pure rfl ?_
      simp
    · refine .seq (scans_expect hc) fun _ => .ended ?_
      simp

/-! ### Literals -/

theorem scansAt_stringLiteral {quote : Char} (hq : quote = '"' ∨ quote = '\'') :
    ScansAt known .fresh (quote :: text) (stringLiteral quote) nameless (fun _ => .joined) := by
  refine .rest ?_
  split
  · rename_i body after h
    exact .goto_front (Spans.literal hq h) (.pure rfl (List.nil_subset _))
  · exact .goto_fail

theorem scansAt_integer [start.Ready] {whole : List Char} (hw : ∀ c ∈ whole, c.isDigit)
    (cut : whole ++ after = text) :
    ScansAt known start text (number.integer whole after) nameless (fun _ => .joined) := by
  refine .goto cut (.digits hw) ?_
  dsimp only
  split
  · exact .pure rfl (List.nil_subset _)
  · exact .fail

theorem scans_number [start.Ready] : Scans known start number nameless (fun _ => .joined) := by
  refine fun text => .rest ?_
  have whole : text.takeWhile Char.isDigit ++ text.dropWhile Char.isDigit = text := List.takeWhile_append_dropWhile
  have digits (text : List Char) : ∀ c ∈ text.takeWhile Char.isDigit, c.isDigit := fun _ m => List.mem_takeWhile_imp m
  dsimp only
  split
  · rename_i d after h
    rw [h] at whole
    have cut : text.takeWhile Char.isDigit ++ '.' :: (d :: after).takeWhile Char.isDigit ++
        (d :: after).dropWhile Char.isDigit = text := by
      rw [List.append_assoc, List.cons_append, List.takeWhile_append_dropWhile, whole]
    have crossed : Crosses start (text.takeWhile Char.isDigit ++ (['.'] ++ (d :: after).takeWhile Char.isDigit))
        ((d :: after).dropWhile Char.isDigit) known [] .joined :=
      .trans (.digits (digits text)) (.trans .dot (.digits (digits _)))
    exact .ite (.goto cut crossed (.pure rfl (List.nil_subset _))) (scansAt_integer (digits text) whole)
  · exact scansAt_integer (digits text) whole

theorem scans_skipArgumentName : Scans known .fresh skipArgumentName nameless (fun _ => .fresh) := by
  refine fun text => .rest ?_
  split
  · rename_i name after h
    split
    · exact .pure rfl (List.nil_subset _)
    · rename_i value _ e
      have blanks (text : List Char) : IsBlank (text.takeWhile Text.isBlank) := fun _ m => List.mem_takeWhile_imp m
      have behind : after.takeWhile Text.isBlank ++ ['='] ++ value = after := by
        rw [List.append_assoc, List.singleton_append, ← e, List.takeWhile_append_dropWhile]
      have ends := endsWord_of_identifier? h
      rw [← behind] at ends
      have cut := identifier?_append h
      rw [← behind, ← List.append_assoc] at cut
      have sign : Crosses .joined (after.takeWhile Text.isBlank ++ ['=']) value ([name] ++ known) [] .fresh :=
        .trans (.blanks (blanks after)) (.marks (List.forall_mem_singleton.2 rfl) (List.cons_ne_nil _ _))
      have crossed := Crosses.trans (.variableName (isIdentifier_of_identifier? h) (blanks text) ends) sign
      exact .goto_front ⟨_, cut, crossed⟩ (.pure rfl (List.nil_subset _))
    · exact .pure rfl (List.nil_subset _)
  · exact .pure rfl (List.nil_subset _)

/-! ### Levels -/

open Folio.Expr (names namesOfOption)

theorem names_nameOrConstant (name : String) : (nameOrConstant name).names ⊆ [name] := by
  simp only [nameOrConstant]
  split <;> simp [names]

section Levels

variable {inner : Parser Expr} (hi : ScansOperand inner) (rounds : Nat)
include hi

theorem scans_dictEntry :
    Scans known .fresh (dictEntry inner) (fun entry => entry.1.names ++ entry.2.names) (fun _ => .joined) := by
  refine .bind (hi _) fun key => .seq scans_skipBlank fun _ => ?_
  refine .seq (scans_expect (by decide)) fun _ => .bind (hi _) fun value => .pure rfl ?_
  simp

theorem scans_callArguments :
    Scans known .joined (callArguments inner rounds) (fun args => args.flatMap names) (fun _ => .joined) := by
  have argument (known : List String) : Scans known .fresh (do skipArgumentName; inner) names (fun _ => .joined) :=
    .seq scans_skipArgumentName fun _ => hi _
  exact .seq (scans_expect (by decide)) fun _ => scans_listUntil argument (by decide) rounds

theorem scans_optionalArguments :
    Scans known .joined (optionalArguments inner rounds) (fun args => args.flatMap names) (fun _ => .joined) :=
  .seq scans_skipBlank fun _ => .choice (scans_peek _) (scans_callArguments hi rounds)
    (.pure rfl (List.nil_subset _))

theorem scans_primary : ScansOperand (primary inner rounds) := by
  have bracket {c : Char} {after : List Char} {known : List String} {p : Parser Expr} (hc : isMark c)
      (hp : Scans known .fresh p names (fun _ => .joined)) :
      ScansAt known .fresh (c :: after) (do goto [c] after; p) names (fun _ => .joined) :=
    .goto rfl (.marks (List.forall_mem_singleton.2 hc) (List.cons_ne_nil c [])) (hp after)
  refine fun known => .seq scans_skipBlank fun _ => fun text => .rest ?_
  split
  · exact .fail
  · refine bracket (by decide) (.bind (hi _) fun e => .seq scans_skipBlank fun _ => ?_)
    exact .seq (scans_expect (by decide)) fun _ => .ended (by simp)
  · refine bracket (by decide) (.bind (scans_listUntil hi (by decide) rounds) fun items => .pure rfl ?_)
    simp [names, Expr.namesOfAll_eq]
  · have entry (known : List String) : Scans known .fresh (dictEntry inner) _ (fun _ => .joined) := scans_dictEntry hi
    refine bracket (by decide) (.bind (scans_listUntil entry (by decide) rounds) fun entries => ?_)
    exact .pure rfl (by simp [names, Expr.namesOfEntries_eq])
  · rename_i c after _ _ _
    split
    · rename_i quote
      exact .bind (scansAt_stringLiteral (by simpa using quote)) fun _ _ => .pure rfl (by simp [names])
    · have number : Scans known .fresh (do return .literal (← number) : Parser Expr) names
          (fun _ => .joined) :=
        .seq scans_number fun _ => .pure rfl (by simp [names])
      refine .ite (number _) (.ite (.bind (scans_variable _) fun name _ => ?_) .fail)
      exact .pure rfl (List.Subset.trans (names_nameOrConstant name) (List.subset_append_left _ _))

theorem scans_test {target : Expr} (ht : target.names ⊆ known) :
    Scans known .fresh (test inner rounds target) names (fun _ => .joined) := by
  have named (negated : Bool) : Scans known .fresh (do
      let name ← identifier
      if name = "defined" then return if negated then .not (.isDefined target) else .isDefined target
      else if name = "undefined" then return if negated then .isDefined target else .not (.isDefined target)
      else return .test name target (← optionalArguments inner rounds) negated) names (fun _ => .joined) := by
    have part (more : List String) : target.names ⊆ more ++ known := List.subset_append_of_subset_right more ht
    refine .bind scans_variable fun name => .ite (.pure rfl ?_) (.ite (.pure rfl ?_) ?_)
    · cases negated <;> exact part _
    · cases negated <;> exact part _
    · refine .bind (scans_optionalArguments hi rounds) fun args => .pure rfl ?_
      rw [names, Expr.namesOfAll_eq]
      exact List.append_subset.2 ⟨List.subset_append_of_subset_right _ (part _), List.subset_append_left _ _⟩
  have word : Scans known .fresh (consumeWord "not") nameless (fun taken => cond taken .fresh .fresh) :=
    scans_consumeWord (by decide)
  refine .bind word fun negated => ?_
  cases negated
  · exact named false
  · exact named true

omit hi in
theorem scans_lookupKey : Scans known .joined lookupKey nameless (fun _ => .joined) := by
  have name : Scans known .joined (do return .string (← identifier) : Parser Value) nameless (fun _ => .joined) :=
    .seq scans_member fun _ => .pure rfl (List.nil_subset _)
  refine fun text => .rest ?_
  split
  · exact .ite (scans_number _) (name _)
  · exact name _

omit hi in
/-- An operand behind an operator makes an expression longer. -/
theorem scans_extended {p : Parser Expr} (hp : ScansOperand p) {e : Expr} (he : e.names ⊆ known) {longer : Expr → Expr}
    (hl : ∀ operand, (longer operand).names = e.names ++ operand.names) :
    Scans known .fresh (do return some (longer (← p))) namesOfOption (fun _ => .joined) := by
  refine .bind (hp known) fun operand => .pure rfl ?_
  rw [namesOfOption, hl]
  exact List.append_subset.2 ⟨List.subset_append_of_subset_right _ he, List.subset_append_left _ _⟩

theorem scans_postfixStep : ScansStep (postfixStep inner rounds) := by
  intro e known he
  have part (more : List String) : e.names ⊆ more ++ known := List.subset_append_of_subset_right more he
  have applied (args : List Expr) : e.names ++ args.flatMap names ⊆ args.flatMap names ++ known :=
    List.append_subset.2 ⟨part _, List.subset_append_left _ _⟩
  refine .seq scans_skipBlank fun _ => .choice scans_consumeDot ?lookup (.choice (scans_consume (by decide)) ?bracket
    (.choice (scans_peek _) ?call (.choice scans_consumeBar ?filter ?test)))
  case lookup =>
    refine .seq scans_lookupKey fun key => .pure rfl ?_
    simpa [namesOfOption, names] using he
  case bracket =>
    refine .bind (hi known) fun key => .seq scans_skipBlank fun _ => .seq (scans_expect (by decide)) fun _ => .ended ?_
    rw [namesOfOption, names]
    exact List.append_subset.2 ⟨part _, List.subset_append_left _ _⟩
  case call =>
    refine .bind (scans_callArguments hi rounds) fun args => .pure rfl ?_
    rw [namesOfOption, names, Expr.namesOfAll_eq]
    exact applied args
  case filter =>
    refine .seq scans_filterName fun name => .bind (scans_optionalArguments hi rounds) fun args => .pure rfl ?_
    rw [namesOfOption, names, Expr.namesOfAll_eq]
    exact applied args
  case test =>
    refine .choice (scans_consumeWord (by decide)) ?_ (.pure rfl (List.nil_subset _))
    exact .bind (scans_test hi rounds he) fun found => .pure rfl (List.subset_append_left _ _)

theorem scans_postfixed : ScansOperand (postfixed inner rounds) := fun known =>
  .bind (scans_primary hi rounds known) fun _ =>
    (scans_postfixStep hi rounds).extendWhile rounds (List.subset_append_left _ _)

theorem scans_signed (signs : Nat) : ScansOperand (signed inner rounds signs) := by
  induction signs with
  | zero => exact fun _ => .fail
  | succ signs ih =>
    refine fun known => .seq scans_skipBlank fun _ => .choice (scans_consume (by decide)) ?_ ?_
    · refine .bind (ih known) fun operand => .pure rfl ?_
      rw [names]
      exact List.subset_append_left _ _
    · exact .choice (scans_consume (by decide)) (ih known) (scans_postfixed hi rounds known)

omit hi in
theorem scans_productOperator? :
    Scans known .joined productOperator? nameless (fun found => cond found.isSome .fresh .joined) := by
  have found (op : Operator) : Scans known .fresh (pure (some op)) nameless
      (fun found => cond found.isSome .fresh .joined) := .pure rfl (List.nil_subset _)
  have none : Scans known .joined (pure none) nameless
      (fun found : Option Operator => cond found.isSome .fresh .joined) := .pure rfl (List.nil_subset _)
  refine .seq scans_skipBlank fun _ => .choice (scans_consume (by decide)) (found _) ?_
  refine .choice (scans_consume (by decide)) (found _) (.choice (scans_consume (by decide)) (found _) ?_)
  refine .choice (scans_consume (by decide)) (found _) (.choice (scans_peek _) none ?_)
  exact .choice (scans_consume (by decide)) (found _) none

theorem scans_productStep : ScansStep (productStep inner rounds) := fun e known he =>
  .bind scans_productOperator? fun
    | some _ => scans_extended (scans_signed hi rounds rounds) he fun _ => by rw [names]
    | none => .pure rfl (List.nil_subset _)

theorem scans_product : ScansOperand (product inner rounds) := fun known =>
  .bind (scans_signed hi rounds rounds known) fun _ =>
    (scans_productStep hi rounds).extendWhile rounds (List.subset_append_left _ _)

omit hi in
theorem scans_atTrimmedClose : Scans known start atTrimmedClose nameless (fun found => cond found start start) :=
  fun _ => .rest (.pure (Bool.cond_self _ _).symm (List.nil_subset _))

theorem scans_sumStep : ScansStep (sumStep inner rounds) := by
  intro e known he
  have operand (op : Operator) : Scans known .fresh (do return some (Expr.binary op e (← product inner rounds)))
      namesOfOption (fun _ => .joined) := scans_extended (scans_product hi rounds) he fun _ => by rw [names]
  refine .seq scans_skipBlank fun _ => .choice (scans_consume (by decide)) (operand .add) ?_
  refine .choice scans_atTrimmedClose (.pure rfl (List.nil_subset _)) ?_
  exact .choice (scans_consume (by decide)) (operand .sub) (.pure rfl (List.nil_subset _))

theorem scans_sum : ScansOperand (sum inner rounds) := fun known =>
  .bind (scans_product hi rounds known) fun _ =>
    (scans_sumStep hi rounds).extendWhile rounds (List.subset_append_left _ _)

theorem scans_joinStep : ScansStep (joinStep inner rounds) := fun _ _ he =>
  .seq scans_skipBlank fun _ => .choice (scans_consume (by decide))
    (scans_extended (scans_sum hi rounds) he fun _ => by rw [names]) (.pure rfl (List.nil_subset _))

theorem scans_join : ScansOperand (join inner rounds) := fun known =>
  .bind (scans_sum hi rounds known) fun _ =>
    (scans_joinStep hi rounds).extendWhile rounds (List.subset_append_left _ _)

omit hi in
/-- Two keywords that are not both there are given back. -/
theorem scans_consumeWords [start.Ready] {first second : String} (hf : isIdentifier first) (hs : isIdentifier second) :
    Scans known start (consumeWords first second) nameless (fun taken => cond taken .fresh start) := by
  intro text trimNext position taken next run
  have unfolded : consumeWords first second { rest := text, trimNext, position } = (do
      if ← consumeWord first then
        if ← consumeWord second then return true
        set ({ rest := text, trimNext, position } : Cursor)
        return false
      else return false : Parser Bool) { rest := text, trimNext, position } := rfl
  rw [unfolded] at run
  obtain ⟨found, between, front, back⟩ := exists_of_bind run
  have one : Spans start text between.rest known [] (cond found .fresh start) :=
    scans_consumeWord hf text trimNext position found between front
  cases found with
  | false =>
    cases back
    exact one
  | true =>
    obtain ⟨found, behind, front, back⟩ := exists_of_bind back
    have two (known : List String) : Spans .fresh between.rest behind.rest known [] (cond found .fresh .fresh) :=
      scans_consumeWord hs between.rest between.trimNext between.position found behind front
    cases found with
    | false =>
      cases back
      exact ⟨[], rfl, .here (List.nil_subset _)⟩
    | true =>
      cases back
      exact one.trans (two _)

omit hi in
theorem scans_comparison? :
    Scans known .joined comparison? nameless (fun found => cond found.isSome .fresh .joined) := by
  have found (op : Comparison) :
      Scans known .fresh (pure (some op)) nameless (fun found => cond found.isSome .fresh .joined) :=
    .pure rfl (List.nil_subset _)
  refine .seq scans_skipBlank fun _ => .choice (scans_consume (by decide)) (found _) ?_
  refine .choice (scans_consume (by decide)) (found _) (.choice (scans_consume (by decide)) (found _) ?_)
  refine .choice (scans_consume (by decide)) (found _) (.choice (scans_consume (by decide)) (found _) ?_)
  refine .choice (scans_consume (by decide)) (found _) (.choice (scans_consumeWord (by decide)) (found _) ?_)
  exact .choice (scans_consumeWords (by decide) (by decide)) (found _) (.pure rfl (List.nil_subset _))

theorem scans_comparisonStep : ScansStep (comparisonStep inner rounds) := fun _ _ he =>
  .bind scans_comparison? fun
    | some _ => scans_extended (scans_join hi rounds) he fun _ => by rw [names]
    | none => .pure rfl (List.nil_subset _)

theorem scans_compared : ScansOperand (compared inner rounds) := fun known =>
  .bind (scans_join hi rounds known) fun _ =>
    (scans_comparisonStep hi rounds).extendWhile rounds (List.subset_append_left _ _)

theorem scans_negation (words : Nat) : ScansOperand (negation inner rounds words) := by
  induction words with
  | zero => exact fun _ => .fail
  | succ words ih =>
    refine fun known => .choice (scans_consumeWord (by decide)) ?_ (scans_compared hi rounds known)
    refine .bind (ih known) fun operand => .pure rfl ?_
    rw [names]
    exact List.subset_append_left _ _

theorem scans_conjunctionStep : ScansStep (conjunctionStep inner rounds) := fun _ _ he =>
  .choice (scans_consumeWord (by decide))
    (scans_extended (scans_negation hi rounds rounds) he fun _ => by rw [names]) (.pure rfl (List.nil_subset _))

theorem scans_conjunction : ScansOperand (conjunction inner rounds) := fun known =>
  .bind (scans_negation hi rounds rounds known) fun _ =>
    (scans_conjunctionStep hi rounds).extendWhile rounds (List.subset_append_left _ _)

theorem scans_disjunctionStep : ScansStep (disjunctionStep inner rounds) := fun _ _ he =>
  .choice (scans_consumeWord (by decide))
    (scans_extended (scans_conjunction hi rounds) he fun _ => by rw [names]) (.pure rfl (List.nil_subset _))

theorem scans_disjunction : ScansOperand (disjunction inner rounds) := fun known =>
  .bind (scans_conjunction hi rounds known) fun _ =>
    (scans_disjunctionStep hi rounds).extendWhile rounds (List.subset_append_left _ _)

theorem scans_conditional : ScansOperand (conditional inner rounds) := by
  intro known
  refine .bind (scans_disjunction hi rounds known) fun value => ?_
  refine .choice (scans_consumeWord (by decide)) ?_ (.pure rfl (List.subset_append_left _ _))
  refine .bind (scans_disjunction hi rounds _) fun condition => ?_
  refine .choice (scans_consumeWord (by decide)) ?_ (.pure rfl ?_)
  · refine .bind (hi _) fun otherwise => .pure rfl ?_
    have known' : value.names ⊆ otherwise.names ++ (condition.names ++ (value.names ++ known)) := by
      intro x m
      simp [m]
    simp [names, namesOfOption, known']
  · simp [names, namesOfOption]

end Levels

/-- The scan sees the variables of every expression that is read. -/
theorem scans_expression (bound : Nat) : ScansOperand (expression bound) := by
  induction bound with
  | zero => exact fun _ => .fail
  | succ bound ih => exact scans_conditional ih (bound + 1)

end Folio.Template.Parser
