import Folio.Proofs.Template.Locality

/-! What follows a tag. Outputs, tags and comments end with a closing delimiter of their own, so that they are read the
same whatever text is behind them. -/
namespace Folio.Template

variable {text after more : List Char}

/-- A dash is not the start of a closing delimiter. -/
theorem Dashless.startsWith_of_dash {close : String} (h : Dashless ('-' :: after)) (m : close.toList ∈ closings) :
    startsWith close after = false ∧ startsWith close ('-' :: after) = false := by
  obtain ⟨c, hc, e⟩ : ∃ c ∈ ['}', '%', '#'], close.toList = [c, '}'] := by
    simpa [closings] using m
  constructor
  · rw [Bool.eq_false_iff]
    intro starts
    obtain ⟨rest, rfl⟩ := List.isPrefixOf_iff_prefix.1 starts
    rw [e] at h
    exact h.closing c hc ⟨[], rest, rfl⟩
  · refine Parser.startsWith_of_head? e fun eq => ?_
    rw [← Option.some.inj eq] at hc
    exact absurd hc (by decide)

namespace Parser

variable {α β : Type}

/-! ### Closing -/

/-- From the text the parser takes a closing delimiter at least, and the other one reads the same with any text
behind. -/
def ClosesAt (more text : List Char) (p q : Parser α) : Prop :=
  ∀ (position : Position) (value : α) (next : Cursor),
    p { rest := text, trimNext := false, position } = .ok (value, next) →
    (∃ taken, taken ++ next.rest = text ∧ ∃ close ∈ closings, close <:+: taken) ∧ next.trimNext = false ∧
      Takes q (text ++ more) value (next.rest ++ more)

def Closes (p q : Parser α) : Prop :=
  ∀ more text, Dashless text → ClosesAt more text p q

namespace ClosesAt

variable {p q : Parser α}

theorem extendsAt (h : ClosesAt more text p q) : ExtendsAt more text p q := by
  intro position value next run
  obtain ⟨⟨taken, cut, -⟩, trim, takes⟩ := h position value next run
  exact ⟨⟨taken, cut⟩, trim, fun _ => takes⟩

/-- A text in which something closes covers whatever follows. -/
theorem covers (h : ClosesAt more text p q) {position : Position} {value : α} {next : Cursor}
    (run : p { rest := text, trimNext := false, position } = .ok (value, next)) (other : List Char) :
    Covers other text := by
  obtain ⟨⟨taken, cut, close, m, i⟩, -⟩ := h position value next run
  exact .inr ⟨close, m, i.trans ⟨[], next.rest, cut⟩⟩

theorem of_covers (h : ∀ more, Covers more text → ClosesAt more text p q) (more : List Char) :
    ClosesAt more text p q := by
  intro position value next run
  exact h more ((h [] (.inl rfl)).covers run more) position value next run

theorem fail {cause : ParseError.Cause} : ClosesAt more text (fail cause) q :=
  nofun

theorem rest {f g : List Char → Parser α} (h : ClosesAt more text (f text) (g (text ++ more))) :
    ClosesAt more text (rest >>= f) (rest >>= g) := by
  intro position value next run
  obtain ⟨taken, trim, takes⟩ := h position value next run
  exact ⟨taken, trim, .rest takes⟩

theorem get {f g : Cursor → Parser α} (h : ∀ cursor cursor', ClosesAt more text (f cursor) (g cursor')) :
    ClosesAt more text (get >>= f) (get >>= g) := by
  intro position value next run
  have h := h { rest := text, trimNext := false, position }
  obtain ⟨taken, trim, -⟩ := h { rest := text, trimNext := false, position } position value next run
  exact ⟨taken, trim, .get fun cursor => (h cursor position value next run).2.2⟩

theorem goto {f g : Unit → Parser α} {passed passed' : List Char} (s : after <:+ text)
    (h : ClosesAt more after (f ()) (g ())) :
    ClosesAt more text (goto passed after >>= f) (Parser.goto passed' (after ++ more) >>= g) := by
  obtain ⟨read, cut⟩ := s
  intro position value next run
  obtain ⟨⟨taken, cut', close, m, i⟩, trim, takes⟩ := h _ value next run
  refine ⟨⟨read ++ taken, ?_, close, m, i.trans ⟨read, [], List.append_nil _⟩⟩, trim, .goto takes⟩
  rw [List.append_assoc, cut', cut]

theorem ite {c : Prop} [Decidable c] {p' q' : Parser α} (hp : ClosesAt more text p p')
    (hq : ClosesAt more text q q') : ClosesAt more text (if c then p else q) (if c then p' else q') := by
  split
  · exact hp
  · exact hq

end ClosesAt

/-- What goes on to a closing delimiter has it ahead on the way. -/
theorem ExtendsAt.closes {first second : Parser β} {f g : β → Parser α} (hp : ExtendsAt more text first second)
    (hf : ∀ value after, after <:+ text → ClosesAt more after (f value) (g value)) :
    ClosesAt more text (first >>= f) (second >>= g) := by
  intro position value last run
  obtain ⟨between, next, run, run'⟩ := exists_of_bind run
  obtain ⟨⟨read, cut⟩, trim, takes⟩ := hp position between next run
  have start : next = { rest := next.rest, trimNext := false, position := next.position } := by rw [← trim]
  rw [start] at run'
  have closes := hf between next.rest ⟨read, cut⟩
  obtain ⟨⟨taken, cut', close, m, i⟩, trim', takes'⟩ := closes next.position value last run'
  refine ⟨⟨read ++ taken, ?_, close, m, i.trans ⟨read, [], List.append_nil _⟩⟩, trim', ?_⟩
  · rw [List.append_assoc, cut', cut]
  · exact (takes (closes.covers run' more)).bind takes'

namespace Closes

variable {p q : Parser α}

theorem toExtends (h : Closes p q) : Extends p q :=
  fun more text hd => (h more text hd).extendsAt

theorem fail {cause : ParseError.Cause} : Closes (fail cause) q :=
  fun _ _ _ => .fail

theorem bind {first second : Parser β} {f g : β → Parser α} (hp : Extends first second)
    (hf : ∀ value, Closes (f value) (g value)) : Closes (first >>= f) (second >>= g) :=
  fun more text hd => (hp more text hd).closes fun value after s => hf value more after (hd.of_suffix s)

/-- Nothing more is taken behind the delimiter. -/
theorem map {first second : Parser β} {f : β → α} (h : Closes first second) :
    Closes (do return f (← first)) (do return f (← second)) := by
  intro more text hd position value last run
  obtain ⟨between, next, run, run'⟩ := exists_of_bind run
  obtain ⟨taken, trim, takes⟩ := h more text hd position between next run
  cases run'
  exact ⟨taken, trim, takes.bind .pure⟩

theorem ite {c : Prop} [Decidable c] {p' q' : Parser α} (hp : Closes p p') (hq : Closes q q') :
    Closes (if c then p else q) (if c then p' else q') :=
  fun more text hd => .ite (hp more text hd) (hq more text hd)

theorem choice {test : Parser Bool} {p' q' : Parser α} (ht : Extends test test) (hp : Closes p p')
    (hq : Closes q q') : Closes (do if ← test then p else q) (do if ← test then p' else q') :=
  .bind ht fun _ => .ite hp hq

end Closes

/-! ### Delimiters -/

theorem closesAt_expect {close : String} (m : close.toList ∈ closings) :
    ClosesAt more text (expect close) (expect close) := by
  intro position _ next run
  obtain ⟨starts, rest, trim⟩ := rest_of_expect run
  have cut : close.toList ++ next.rest = text := rest ▸ toList_append_dropToken starts
  refine ⟨⟨close.toList, cut, _, m, List.infix_rfl⟩, trim, ?_⟩
  rw [← cut, List.append_assoc]
  exact takes_expect close

/-- Without dashes a tag is closed by its delimiter alone. -/
theorem closes_expectClose {close : String} (m : close.toList ∈ closings) :
    Closes (expectClose close) (expectClose close) := by
  refine .bind extends_skipBlank fun _ => fun more text hd => .of_covers (fun more h => .rest ?_) more
  split
  · rename_i after
    obtain ⟨behind, here⟩ := hd.startsWith_of_dash m
    rw [behind]
    intro position _ next run
    rw [(rest_of_expect run).1] at here
    cases here
  · rename_i plain
    split
    · rename_i after e
      rcases h.braced.exists_cons with rfl | ⟨c, rest, rfl⟩
      · exact absurd ((List.append_nil text).symm.trans e) (plain after)
      · exact absurd rfl ((List.cons.inj e).1 ▸ plain rest)
    · exact closesAt_expect m

theorem closes_close : Closes (expectClose "%\x7d") (expectClose "%\x7d") :=
  closes_expectClose (by decide)

/-- A comment goes up to its closing delimiter. -/
theorem exists_of_afterComment {trim : Bool} (more : List Char) (h : afterComment text = some (trim, after)) :
    (∃ taken, taken ++ after = text ∧ ['#', '}'] <:+: taken) ∧ (trim = true → ['-', '#', '}'] <:+: text) ∧
      afterComment (text ++ more) = some (trim, after ++ more) := by
  fun_induction afterComment text with
  | case1 rest => 
    cases h
    exact ⟨⟨['-', '#', '}'], rfl, ⟨['-'], [], rfl⟩⟩, fun _ => ⟨[], after, rfl⟩, rfl⟩
  | case2 rest =>
    cases h
    exact ⟨⟨['#', '}'], rfl, List.infix_rfl⟩, fun t => absurd t Bool.false_ne_true, rfl⟩
  | case3 c rest dash plain ih =>
    obtain ⟨⟨taken, cut, i⟩, trims, same⟩ := ih h
    refine ⟨⟨c :: taken, by rw [List.cons_append, cut], i.trans (List.suffix_cons c taken).isInfix⟩,
      fun t => (trims t).trans (List.suffix_cons c rest).isInfix, ?_⟩
    have inside : '}' ∈ rest := cut ▸ List.mem_append_left after (i.subset (by decide))
    rw [List.cons_append, afterComment, same]
    · intro behind hc e
      obtain ⟨behind, e, -⟩ := Braced.exists_of_append_eq (.inr inside) (by decide) e
      exact dash behind hc e
    · intro behind hc e
      obtain ⟨d, rest, rfl⟩ := List.exists_cons_of_ne_nil (List.ne_nil_of_mem inside)
      exact plain rest hc (congrArg (· :: rest) (List.cons.inj e).1)
  | case4 => cases h

theorem closes_comment : Closes comment comment := by
  refine .bind (extends_expect (by decide)) fun _ => fun more text hd => .rest ?_
  cases e : afterComment text with
  | none => exact nofun
  | some read =>
    obtain ⟨trim, after⟩ := read
    obtain ⟨⟨taken, cut, i⟩, trims, same⟩ := exists_of_afterComment more e
    rw [same]
    cases trim with
    | true => exact absurd (trims rfl) (hd.closing '#' (by decide))
    | false =>
      rintro position _ _ ⟨⟩
      exact ⟨⟨taken, cut, _, by decide, i⟩, rfl, .goto .pure⟩

/-! ### Texts -/

theorem extends_trimmed (content : List Char) : Extends (trimmed content) (trimmed content) := by
  rintro more text hd position _ _ ⟨⟩
  refine ⟨List.suffix_rfl, rfl, fun c => ⟨fun position => ⟨position, ?_⟩⟩⟩
  change Except.ok (String.ofList (if atTrimmedOpening (text ++ more) then _ else content), _) = _
  rw [c.atTrimmedOpening_append]
  rfl

theorem atOpening_of_ne {c : Char} (hc : c ≠ '{') (rest : List Char) : atOpening (c :: rest) = false := by
  unfold atOpening
  split
  · rename_i e
    exact absurd (List.cons.inj e).1 hc
  · rfl

/-- Two characters tell whether a text stands at an opening delimiter. -/
theorem atOpening_cons_cons (c d : Char) (rest : List Char) : atOpening (c :: d :: rest) = atOpening [c, d] := by
  by_cases hc : c = '{'
  · subst hc
    rfl
  · rw [atOpening_of_ne hc, atOpening_of_ne hc]

theorem splitAtOpening_more (h : (splitAtOpening text).2 = [] → more = []) :
    splitAtOpening (text ++ more) = ((splitAtOpening text).1, (splitAtOpening text).2 ++ more) := by
  induction text with
  | nil =>
    rw [h rfl]
    rfl
  | cons c rest ih =>
    cases rest with
    | nil =>
      have none : atOpening [c] = false := by
        unfold atOpening
        split
        · rename_i e
          cases e
        · rfl
      have alone : splitAtOpening [c] = ([c], []) := by
        rw [splitAtOpening, if_neg (by rw [none]; exact Bool.false_ne_true)]
        rfl
      rw [alone] at h ⊢
      rw [h rfl, List.append_nil, alone]
      rfl
    | cons d rest =>
      have same : atOpening (c :: (d :: rest ++ more)) = atOpening (c :: d :: rest) :=
        (atOpening_cons_cons c d _).trans (atOpening_cons_cons c d rest).symm
      rw [List.cons_append, splitAtOpening, same]
      rw [splitAtOpening] at h ⊢
      split
      · rfl
      · rename_i opens
        rw [if_neg opens] at h
        rw [ih h]

theorem suffix_of_split {content : List Char} (split : splitAtOpening text = (content, after)) : after <:+ text := by
  have cut := splitAtOpening_append text
  rw [split] at cut
  exact ⟨content, cut⟩

theorem extends_text : Extends Parser.text Parser.text := by
  intro more text hd position value next run
  cases e : splitAtOpening text with
  | mk content after =>
    have s := suffix_of_split e
    obtain ⟨_, _, ahead, run⟩ := exists_of_bind run
    cases ahead
    rw [e] at run
    have both := extends_trimmed content more after (hd.of_suffix s) _ value next run
    cases run
    refine ⟨s, rfl, fun c => .rest ?_⟩
    have cut : splitAtOpening (text ++ more) = _ := splitAtOpening_more fun empty => by
      rw [e] at empty
      subst empty
      exact c.eq_nil
    rw [cut, e]
    exact .goto (both.2.2 c)

theorem splitAtEndRaw_more {content : List Char} (h : splitAtEndRaw text = some (content, after))
    (covers : Covers more after) : splitAtEndRaw (text ++ more) = some (content, after ++ more) := by
  induction text generalizing content with
  | nil => cases h
  | cons d rest ih =>
    have covers := covers.of_suffix ⟨content, splitAtEndRaw_append h⟩
    rw [List.cons_append, splitAtEndRaw, ← List.cons_append, covers.braced.tagKeyword?_append]
    rw [splitAtEndRaw] at h
    split
    · rename_i e
      rw [if_pos e] at h
      cases h
      rfl
    · rename_i e
      rw [if_neg e] at h
      obtain ⟨⟨content, after⟩, e, h⟩ := Option.map_eq_some_iff.1 h
      cases h
      rw [ih e]
      rfl

/-! ### Tags -/

theorem extends_openTag : Extends openTag openTag :=
  .bind (extends_expect (by decide)) fun _ => .bind (extends_consume (by decide)) fun _ => extends_identifier

theorem closes_endTag {keyword : String} (hk : Closeless keyword.toList) : Closes (endTag keyword) (endTag keyword) :=
  .bind (extends_expect (by decide)) fun _ => .bind (extends_consume (by decide)) fun _ =>
    .bind (extends_expectWord hk) fun _ => closes_close

theorem extends_endOfText (ends : List String) : Extends (endOfText ends) (endOfText ends) := by
  rw [endOfText]
  split
  · exact .fail
  · exact .pure

theorem extends_contextModifier : Extends contextModifier contextModifier := by
  have word {b : Bool} : Extends (do expectWord "context"; return b) (do expectWord "context"; return b) :=
    .bind (extends_expectWord (by decide)) fun _ => .pure
  exact .choice (extends_consumeWord (by decide)) word (.choice (extends_consumeWord (by decide)) word .pure)

theorem extends_importedName : Extends importedName importedName := by
  refine .bind extends_identifier fun name => .choice (extends_consumeWord (by decide)) ?_ .pure
  exact .bind extends_identifier fun _ => .pure

/-- The tag that ends a raw block is the first in either text. -/
theorem closes_rawTag : Closes rawTag rawTag := by
  refine .bind closes_close.toExtends fun _ => fun more text hd => .rest ?_
  cases e : splitAtEndRaw text with
  | none => exact nofun
  | some read =>
    obtain ⟨content, after⟩ := read
    have s : after <:+ text := ⟨content, splitAtEndRaw_append e⟩
    have tail : Closes (do let content ← trimmed content; endTag "endraw"; return Node.text content)
        (do let content ← trimmed content; endTag "endraw"; return Node.text content) :=
      .bind (extends_trimmed content) fun _ => .map (closes_endTag (by decide))
    intro position value next run
    have tail (more : List Char) := tail more after (hd.of_suffix s)
    rw [splitAtEndRaw_more e ((tail more).covers run more)]
    exact ClosesAt.goto s (tail more) position value next run

section Tags

variable {body body' : BodyParser} (hb : ∀ ends, Extends (body ends) (body' ends)) {inner inner' : Parser Expr}
  (hi : Extends inner inner') {rounds rounds' : Nat} (hr : rounds ≤ rounds')

section

include hb

theorem closes_bodyUntil {closing : String} (hc : Closeless closing.toList) :
    Closes (bodyUntil body closing) (bodyUntil body' closing) :=
  .bind (hb _) fun _ => .map (closes_endTag hc)

theorem closes_blockTag : Closes (blockTag body) (blockTag body') := by
  refine .bind extends_identifier fun name => .bind closes_close.toExtends fun _ => .bind (hb _) fun read => ?_
  have block : Closes (do expectClose "%\x7d"; return Node.block name read.1)
      (do expectClose "%\x7d"; return Node.block name read.1) :=
    .map closes_close
  refine .bind (extends_expect (by decide)) fun _ => .bind (extends_consume (by decide)) fun _ => ?_
  refine .bind (extends_expectWord (by decide)) fun _ => .bind extends_skipBlank fun _ => ?_
  refine fun more text hd => .of_covers (fun more h => .rest ?_) more
  have head : (text ++ more).head? = text.head? := by
    rcases h.braced.exists_cons with rfl | ⟨c, rest, rfl⟩
    · rw [List.append_nil]
    · rfl
  rw [head]
  refine .ite ((Closes.bind extends_identifier fun closing => ?_ : Closes _ _) more text hd) (block more text hd)
  split
  · exact .bind .fail fun _ => block
  · exact block

include hi

theorem closes_arms {tags tags' : Nat} (ht : tags ≤ tags') (condition : Expr) :
    Closes (arms body inner tags condition) (arms body' inner' tags' condition) := by
  induction tags generalizing tags' condition with
  | zero => exact .fail
  | succ tags ih =>
    cases tags' with
    | zero => exact absurd ht (Nat.not_succ_le_zero _)
    | succ tags' =>
      refine .bind (hb _) fun read => .ite ?next (.ite ?otherwise ?last)
      case next =>
        refine .bind extends_openTag fun _ => .bind hi fun next => .bind closes_close.toExtends fun _ => ?_
        exact .map (ih (Nat.le_of_succ_le_succ ht) next)
      case otherwise =>
        refine .bind extends_openTag fun _ => .bind closes_close.toExtends fun _ => ?_
        exact .map (closes_bodyUntil hb (by decide))
      case last => exact .map (closes_endTag (by decide))

include hr

theorem closes_branchTag : Closes (branchTag body inner rounds) (branchTag body' inner' rounds') :=
  .bind hi fun condition => .bind closes_close.toExtends fun _ => .map (closes_arms hb hi hr condition)

theorem closes_loopTag : Closes (loopTag body inner rounds) (loopTag body' inner' rounds') := by
  refine .bind (carries_extends.listOf extends_identifier hr) fun targets => .bind (extends_expectWord (by decide)) fun _ => ?_
  refine .bind (carries_extends.disjunction hi hr) fun items => .bind closes_close.toExtends fun _ => ?_
  refine .bind (hb _) fun read => .ite ?_ ?_
  · refine .bind extends_openTag fun _ => .bind closes_close.toExtends fun _ => ?_
    exact .map (closes_bodyUntil hb (by decide))
  · exact .map (closes_endTag (by decide))

end

section

include hi

theorem closes_inclusionTag : Closes (inclusionTag inner) (inclusionTag inner') := by
  have modifier {name ignoreMissing} : Closes (do
      let withContext ← contextModifier
      expectClose "%\x7d"
      return Node.inclusion name ignoreMissing withContext) (do
      let withContext ← contextModifier
      expectClose "%\x7d"
      return Node.inclusion name ignoreMissing withContext) :=
    .bind extends_contextModifier fun _ => .map closes_close
  refine .bind hi fun name => .bind (extends_consumeWord (by decide)) fun ignoreMissing => .ite ?_ modifier
  exact .bind (extends_expectWord (by decide)) fun _ => modifier

theorem closes_assignTag : Closes (assignTag inner) (assignTag inner') :=
  .bind extends_identifier fun _ => .bind extends_skipBlank fun _ => .bind (extends_expect (by decide)) fun _ =>
    .bind hi fun _ => .map closes_close

theorem closes_extendTag : Closes (extendTag inner) (extendTag inner') :=
  .bind hi fun _ => .map closes_close

theorem closes_importTag : Closes (importTag inner) (importTag inner') :=
  .bind hi fun _ => .bind (extends_expectWord (by decide)) fun _ => .bind extends_identifier fun _ =>
    .bind extends_contextModifier fun _ => .map closes_close

theorem closes_outputTag : Closes (outputTag inner) (outputTag inner') :=
  .bind (extends_expect (by decide)) fun _ => .bind (extends_consume (by decide)) fun _ =>
    .bind hi fun _ => .map (closes_expectClose (by decide))

theorem extends_param : Extends (param inner) (param inner') := by
  refine .bind extends_identifier fun name => .bind extends_skipBlank fun _ => ?_
  refine fun more text hd => .of_covers (fun more h => .rest ?_) more
  refine extendsAt_sign h.braced .pure fun value e => ?_
  have s : value <:+ text := e ▸ List.suffix_cons '=' value
  exact .pass s ((Extends.bind hi fun _ => .pure : Extends _ _) more value (hd.of_suffix s))

include hr

theorem closes_importFromTag : Closes (importFromTag inner rounds) (importFromTag inner' rounds') :=
  .bind hi fun _ => .bind (extends_expectWord (by decide)) fun _ =>
    .bind (carries_extends.listOf extends_importedName hr) fun _ =>
    .bind extends_contextModifier fun _ => .map closes_close

theorem extends_params : Extends (params inner rounds) (params inner' rounds') :=
  .bind (extends_expect (by decide)) fun _ => carries_extends.listUntil (extends_param hi) hr (by decide) (by decide)

theorem extends_optionalParams : Extends (optionalParams inner rounds) (optionalParams inner' rounds') :=
  .bind extends_skipBlank fun _ => .choice (extends_peek (by decide)) (extends_params hi hr) .pure

include hb

theorem closes_defineTag : Closes (defineTag body inner rounds) (defineTag body' inner' rounds') :=
  .bind extends_identifier fun _ => .bind extends_skipBlank fun _ => .bind (extends_params hi hr) fun _ =>
    .bind closes_close.toExtends fun _ => .map (closes_bodyUntil hb (by decide))

theorem closes_callTag : Closes (callTag body inner rounds) (callTag body' inner' rounds') :=
  .bind (extends_optionalParams hi hr) fun _ => .bind hi fun _ => .bind closes_close.toExtends fun _ =>
    .map (closes_bodyUntil hb (by decide))

theorem closes_filterTag : Closes (filterTag body inner rounds) (filterTag body' inner' rounds') :=
  .bind extends_identifier fun _ => .bind (carries_extends.optionalArguments hi hr) fun _ =>
    .bind closes_close.toExtends fun _ => .map (closes_bodyUntil hb (by decide))

theorem closes_tag : Closes (tag body inner rounds) (tag body' inner' rounds') := by
  refine fun more text hd => .get fun opening opening' => ?_
  refine (extends_openTag more text hd).closes fun keyword after s => ?_
  have hd := hd.of_suffix s
  split
  · exact closes_branchTag hb hi hr more after hd
  · exact closes_loopTag hb hi hr more after hd
  · exact closes_inclusionTag hi more after hd
  · exact closes_assignTag hi more after hd
  · exact closes_blockTag hb more after hd
  · exact closes_extendTag hi more after hd
  · exact closes_rawTag more after hd
  · exact closes_defineTag hb hi hr more after hd
  · exact closes_callTag hb hi hr more after hd
  · exact closes_filterTag hb hi hr more after hd
  · exact closes_importTag hi more after hd
  · exact closes_importFromTag hi hr more after hd
  · exact nofun

theorem closes_markup : Closes (markup body inner rounds) (markup body' inner' rounds') := by
  refine .choice (extends_peek (by decide)) (.map closes_comment) (.choice (extends_peek (by decide)) ?_ ?_)
  · exact .map (closes_outputTag hi)
  · exact .map (closes_tag hb hi hr)

end

end Tags

/-! ### Bodies -/

theorem extends_nodes {bound bound' : Nat} (h : bound ≤ bound') (ends : List String) :
    Extends (nodes bound ends) (nodes bound' ends) := by
  induction bound generalizing bound' ends with
  | zero => exact .fail
  | succ bound ih =>
    cases bound' with
    | zero => exact absurd h (Nat.not_succ_le_zero _)
    | succ bound' =>
      have body := ih (Nat.le_of_succ_le_succ h)
      refine .bind extends_text fun content => .choice extends_atEnd ?_ fun more text hd => ?_
      · exact .bind (extends_endOfText ends) fun _ => .pure
      -- An end tag is only looked at, so the text that is left has to cover what comes behind.
      · refine .of_covers (fun more covers => .rest ?_) more
        rw [covers.braced.tagKeyword?_append]
        split
        · exact .pure
        · have node := closes_markup body (extends_expression h) h
          exact (Extends.bind node.toExtends fun node => .bind (body ends) fun _ => .pure : Extends _ _) more text hd

end Parser

end Folio.Template
