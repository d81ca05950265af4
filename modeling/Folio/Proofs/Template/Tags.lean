import Folio.Proofs.Template.Markup

/-! Printed templates are read back: a lemma for each tag, which reads its own text and the bodies up to its end tag,
and from them the theorem for all templates by induction on their nodes. -/
namespace Folio.Template

namespace Parser

variable {text after gap chars : List Char} {extra : Expr → Bool} {depth bound : Nat} {e : Expr}

/-! ### Delimiters -/

theorem stops_close : Stops 0 ("%\x7d".toList ++ text) :=
  ⟨isSolid_cons rfl, by simp [operatorLevel?, isIdentStart]⟩

theorem takes_closeTag (hg : IsBlank gap) : Takes (expectClose "%\x7d") (gap ++ ("%\x7d".toList ++ after)) () after :=
  takes_expectClose hg rfl rfl nofun

theorem takes_openTag {keyword : String} (hk : isIdentifier keyword) (hne : gap ≠ []) (hg : IsBlank gap)
    (hr : EndsWord after) : Takes openTag ("\x7b%".toList ++ (gap ++ (keyword.toList ++ after))) keyword after := by
  have name := takes_identifier hk hg hr
  obtain ⟨c, gap, rfl⟩ := List.exists_cons_of_ne_nil hne
  exact (takes_expect "\x7b%").bind ((takes_dash (hg c List.mem_cons_self)).bind name)

/-- The text of a tag. -/
theorem written_tag {keyword : String} {tokens : List Token} (h : (Piece.tag keyword tokens).Written chars)
    (rest : List Char) : ∃ gap space inside, gap ≠ [] ∧ IsBlank gap ∧ space ≠ [] ∧ IsBlank space ∧
      Written tokens inside ∧ chars ++ rest =
        "\x7b%".toList ++ (gap ++ (keyword.toList ++ (space ++ (inside ++ ("%\x7d".toList ++ rest))))) := by
  cases h with
  | @tag _ _ gap _ hne hg hw =>
    obtain ⟨space, inside, hne', hs, hi, rfl⟩ := written_word_cons hw
    exact ⟨gap, space, inside, hne, hg, hne', hs, hi, by simp⟩

/-- The text of a tag that has nothing but its keyword. -/
theorem written_keywordTag {keyword : String} (h : (Piece.tag keyword []).Written chars) (rest : List Char) :
    ∃ gap space, gap ≠ [] ∧ IsBlank gap ∧ space ≠ [] ∧ IsBlank space ∧
      chars ++ rest = "\x7b%".toList ++ (gap ++ (keyword.toList ++ (space ++ ("%\x7d".toList ++ rest)))) := by
  obtain ⟨gap, space, inside, hne, hg, hne', hs, hi, e⟩ := written_tag h rest
  cases hi
  exact ⟨gap, space, hne, hg, hne', hs, e⟩

theorem takes_endTag {keyword : String} (hk : isIdentifier keyword) (h : (Piece.tag keyword []).Written chars) :
    Takes (endTag keyword) (chars ++ after) () after := by
  obtain ⟨gap, space, hne, hg, hne', hs, e⟩ := written_keywordTag h after
  rw [e]
  have word := takes_expectWord hk hg (endsWord_of_isBlank hs hne' : EndsWord (space ++ ("%\x7d".toList ++ after)))
  obtain ⟨c, gap, rfl⟩ := List.exists_cons_of_ne_nil hne
  exact (takes_expect "\x7b%").bind ((takes_dash (hg c List.mem_cons_self)).bind (word.bind (takes_closeTag hs)))

theorem endsBody_of_tag {keyword : String} {tokens : List Token} {ends : List String} (hm : keyword ∈ ends)
    (hk : isIdentifier keyword) (h : (Piece.tag keyword tokens).Written chars) (rest : List Char) :
    EndsBody ends (chars ++ rest) (some keyword) := by
  obtain ⟨gap, space, inside, hne, hg, hne', hs, -, e⟩ := written_tag h rest
  rw [e]
  exact .tag hm hk hne hg (endsWord_of_isBlank hs hne')

theorem takes_close : Takes (expectClose "%\x7d") ("%\x7d".toList ++ after) () after := by
  have close : Takes (expectClose "%\x7d") ([] ++ ("%\x7d".toList ++ after)) () after := takes_closeTag isBlank_nil
  exact close

/-- A tag is read by the parser that its keyword names. -/
theorem takes_markup {body : BodyParser} {inner : Parser Expr} {next : Cursor → String → Parser Node}
    {keyword : String}
    {tokens : List Token} {node : Node} {rest : List Char}
    (ht : tag body inner bound = (do let opening ← get; next opening (← openTag)))
    (hk : isIdentifier keyword) (hw : (Piece.tag keyword tokens).Written chars)
    (h : ∀ opening space inside, IsBlank space → Written tokens inside →
      (inside ++ ("%\x7d".toList ++ rest)).length < (chars ++ rest).length →
      Takes (next opening keyword) (space ++ (inside ++ ("%\x7d".toList ++ rest))) node after) :
    Takes (markup body inner bound) (chars ++ rest) (some node) after := by
  obtain ⟨gap, space, inside, hne, hg, hne', hs, hi, e⟩ := written_tag hw rest
  have shorter : (inside ++ ("%\x7d".toList ++ rest)).length < (chars ++ rest).length := by
    have : "\x7b%".toList.length = 2 := rfl
    rw [e]
    simp only [List.length_append]
    omega
  rw [e]
  have opens := takes_openTag hk hne hg (endsWord_of_isBlank hs hne' :
    EndsWord (space ++ (inside ++ ("%\x7d".toList ++ rest))))
  have whole : Takes (tag body inner bound)
      ("\x7b%".toList ++ (gap ++ (keyword.toList ++ (space ++ (inside ++ ("%\x7d".toList ++ rest))))))
      node after := by
    rw [ht]
    exact .get fun opening => opens.bind (h opening space inside hs hi shorter)
  exact .no ⟨fun _ => ⟨_, rfl⟩⟩ (.no ⟨fun _ => ⟨_, rfl⟩⟩ (whole.bind .pure))

/-! ### Parts of tags -/

theorem takes_expression (hp : Printable e) (hw : Written (tokensAt extra 0 e) chars) (hg : IsBlank gap)
    (hb : (chars ++ text).length < depth) (hs : Stops 0 text) :
    Takes (expression depth) (gap ++ (chars ++ text)) e text :=
  (takes_tokensAt hp (by decide) hw).inside hg hb hs

/-- The tokens are none, or a word with a property and others behind it. -/
def WordFirst (p : String → Prop) (tokens : List Token) : Prop :=
  tokens = [] ∨ ∃ word more, tokens = .word word :: more ∧ isIdentifier word ∧ p word

/-- Words that are no operators end an expression. -/
theorem stops_of_wordFirst {tokens : List Token} (ht : WordFirst (wordLevel? · = none) tokens)
    (hw : Written tokens chars) : Stops 0 (chars ++ ("%\x7d".toList ++ after)) := by
  rcases ht with rfl | ⟨word, more, rfl, hi, hl⟩
  · cases hw
    exact stops_close
  · have none : ∀ k ∈ (Token.word word).level?, k < 0 := by
      rw [Token.level?, hl]
      rintro _ ⟨⟩
    exact stops_of_written hw hi (by simp) none _

/-- A word that is not there is looked for at the end of the tag or in front of another word. -/
theorem takes_consumeWord_absent {word : String} {tokens : List Token} (hw : isIdentifier word) (hg : IsBlank gap)
    (ht : WordFirst (· ≠ word) tokens)
    (hc : Written tokens chars) : Takes (consumeWord word) (gap ++ (chars ++ ("%\x7d".toList ++ text))) false
      (chars ++ ("%\x7d".toList ++ text)) := by
  rcases ht with rfl | ⟨other, more, rfl, ho, hne⟩
  · cases hc
    exact takes_consumeWord_ne hg stops_close.solid (startsWithWord_cons hw rfl rfl)
  · obtain ⟨space, inside, hne', hs, -, rfl⟩ := written_word_cons hc
    rw [List.append_assoc, List.append_assoc]
    refine takes_consumeWord_ne hg (isSolid_of_isIdentifier ho) ?_
    exact startsWithWord_of_ne hw ho hne (endsWord_of_isBlank hs hne')

theorem takes_contextModifier_none (hg : IsBlank gap) :
    Takes contextModifier (gap ++ ("%\x7d".toList ++ after)) true ("%\x7d".toList ++ after) := by
  have without : Takes (consumeWord "without") (gap ++ ("%\x7d".toList ++ after)) false ("%\x7d".toList ++ after) :=
    takes_consumeWord_ne hg stops_close.solid (startsWithWord_cons (by decide) rfl rfl)
  have other : Takes (consumeWord "with") ("%\x7d".toList ++ after) false ("%\x7d".toList ++ after) :=
    takes_consumeWord_ne_here stops_close.solid (startsWithWord_cons (by decide) rfl rfl)
  exact .no without (.no other .pure)

theorem takes_contextModifier {withContext : Bool}
    (hw : Written (if withContext then [] else [.word "without", .word "context"]) chars) (hg : IsBlank gap) :
    ∃ space, IsBlank space ∧ Takes contextModifier (gap ++ (chars ++ ("%\x7d".toList ++ after))) withContext
      (space ++ ("%\x7d".toList ++ after)) := by
  cases withContext with
  | true =>
    cases hw
    exact ⟨[], isBlank_nil, takes_contextModifier_none hg⟩
  | false =>
    obtain ⟨between, _, hne, hb, hc, rfl⟩ := written_word_cons hw
    obtain ⟨space, hs, hne', rfl⟩ := written_keyword hc
    simp only [List.append_assoc]
    have context : EndsWord (space ++ ("%\x7d".toList ++ after)) := endsWord_of_isBlank hs hne'
    refine ⟨space, hs, .yes (takes_consumeWord (by decide) hg (endsWord_of_isBlank hb hne)) ?_⟩
    exact (takes_expectWord (by decide) hb context).bind .pure

section Lists

variable {α : Type}

/-- The parser of a name reads it in front of a comma or of what follows the names. -/
def NameAt (item : Parser α) (chars : List Char) (value : α) : Prop :=
  ∀ ⦃gap rest : List Char⦄, IsBlank gap → IsSolid rest → startsWithWord "as" rest = false →
    ∃ space, IsBlank space ∧ Takes item (gap ++ (chars ++ rest)) value (space ++ rest)

theorem takes_listOf {item : Parser α} {print : α → List Token} {values : List α} (hne : values ≠ [])
    (hv : ∀ v ∈ values, ∀ chars, Written (print v) chars → NameAt item chars v)
    (hw : Written (commaSeparated (values.map print)) chars) (hg : IsBlank gap) {rounds : Nat}
    (hr : chars.length < rounds)
    (hs : IsSolid after) (hc : after.head? ≠ some ',') (ha : startsWithWord "as" after = false) :
    Takes (listOf item rounds) (gap ++ (chars ++ after)) values after := by
  induction values generalizing chars gap rounds with
  | nil => exact absurd rfl hne
  | cons v values ih =>
    obtain ⟨rounds, rfl⟩ := Nat.exists_eq_succ_of_ne_zero (by omega : rounds ≠ 0)
    have own := hv v List.mem_cons_self
    cases values with
    | nil =>
      obtain ⟨space, hspace, run⟩ := own chars (by simpa [commaSeparated] using hw) hg hs ha
      exact run.bind ((takes_skipBlank hspace hs).bind (.no (takes_consume_ne rfl hc) .pure))
    | cons next values =>
      obtain ⟨first, between, others, hb, hf, ho, rfl⟩ := written_commaSeparated hw
      simp only [List.append_assoc]
      have comma : Stops 0 (",".toList ++ (between ++ (others ++ after))) := stops_closing (by decide)
      have none : startsWithWord "as" (",".toList ++ (between ++ (others ++ after))) = false :=
        startsWithWord_cons (by decide) rfl rfl
      obtain ⟨space, hspace, run⟩ := own first hf hg comma.solid none
      have shorter : others.length < rounds := by
        simp only [List.length_append] at hr
        have : ",".toList.length = 1 := rfl
        omega
      have more := ih (List.cons_ne_nil _ _) (fun v m => hv v (List.mem_cons_of_mem _ m)) ho hb shorter
      exact run.bind ((takes_skipBlank hspace comma.solid).bind (.yes (takes_consume ",") (more.bind .pure)))

theorem nameAt_identifier {name : String} (hn : isIdentifier name) (hw : Written [.word name] chars) :
    NameAt identifier chars name := by
  intro gap rest hg hs ha
  obtain ⟨space, hspace, hne, rfl⟩ := written_keyword hw
  rw [List.append_assoc]
  exact ⟨space, hspace, takes_identifier hn hg (endsWord_of_isBlank hspace hne)⟩

theorem nameAt_importedName {names : String × String} (hn : isIdentifier names.1 ∧ isIdentifier names.2)
    (hw : Written (tokensOfImport names) chars) : NameAt importedName chars names := by
  intro gap rest hg hs ha
  obtain ⟨name, other⟩ := names
  obtain ⟨between, _, hne, hb, hm, rfl⟩ := written_word_cons hw
  rw [List.append_assoc, List.append_assoc]
  have first {more : List Char} := takes_identifier hn.1 hg (endsWord_of_isBlank hb hne : EndsWord (between ++ more))
  by_cases same : name = other
  · subst same
    rw [if_pos rfl] at hm
    cases hm
    exact ⟨[], isBlank_nil, first.bind (.no (takes_consumeWord_ne hb hs ha) .pure)⟩
  · rw [if_neg same] at hm
    obtain ⟨gap', _, hne', hg', ho, rfl⟩ := written_word_cons hm
    obtain ⟨space, hspace, hne'', rfl⟩ := written_keyword ho
    simp only [List.append_assoc]
    have second : EndsWord (space ++ rest) := endsWord_of_isBlank hspace hne''
    refine ⟨space, hspace, first.bind (.yes (takes_consumeWord (by decide) hb (endsWord_of_isBlank hg' hne')) ?_)⟩
    exact (takes_identifier hn.2 hg' second).bind .pure

end Lists

theorem itemAt_param {p : Param} (hn : isIdentifier p.name) (hd : ∀ e ∈ p.default, Printable e)
    (hw : Written (tokensOfParam extra p) chars) (depth : Nat) : ItemAt depth (param (expression depth)) chars p := by
  intro rest
  obtain ⟨name, default⟩ := p
  obtain ⟨space, more, hne, hs, hm, rfl⟩ := written_word_cons hw
  rw [List.append_assoc, List.append_assoc]
  have ends : EndsWord (space ++ (more ++ rest)) := endsWord_of_isBlank hs hne
  have leads : (Token.word name).Leads 0 := ⟨hn, nofun⟩
  refine ⟨starts_of_written (.word name) hn leads ends, fun hl stops => ?_⟩
  have first := takes_identifier_here hn ends
  cases default with
  | none =>
    cases hm
    have equals := stops.head_ne (c := '=') (Nat.zero_le 4) rfl rfl nofun
    refine first.bind ((takes_skipBlank hs stops.solid).bind (.rest ?_))
    split
    · exact absurd rfl equals
    · exact absurd rfl equals
    · exact .pure
  | some e =>
    obtain ⟨between, value, hne', hb, hv, rfl⟩ := written_mark_cons hm
    simp only [List.append_assoc] at hl first ⊢
    obtain ⟨c, between, rfl⟩ := List.exists_cons_of_ne_nil hne'
    have shorter : (value ++ rest).length < depth := by
      simp only [List.length_append] at hl ⊢
      omega
    have run := takes_expression (hd e rfl) hv hb shorter stops
    have solid : IsSolid ("=".toList ++ (c :: between ++ (value ++ rest))) := isSolid_cons rfl
    refine first.bind ((takes_skipBlank hs solid).bind (.rest ?_))
    split
    · rename_i e
      cases e
      exact absurd (hb '=' List.mem_cons_self) (by decide)
    · rename_i e
      cases e
      exact .pass (run.bind .pure)
    · rename_i other
      exact absurd rfl (other _)

section Params

variable {parameters : List Param} (hn : ∀ p ∈ parameters, isIdentifier p.name)
  (hd : ∀ p ∈ parameters, ∀ e ∈ p.default, Printable e)
include hn hd

theorem takes_params (hw : Written (tokensOfParams extra parameters) chars) (hb : Fits depth bound (chars ++ text)) :
    ∃ space, IsBlank space ∧ Takes (params (expression depth) bound) (chars ++ text) parameters (space ++ text) := by
  have item : ∀ p ∈ parameters, ∀ chars, Written (tokensOfParam extra p) chars →
      ItemAt depth (param (expression depth)) chars p :=
    fun p m _ hw => itemAt_param (hn p m) (hd p m) hw depth
  obtain ⟨inside, space, hs, whole, run⟩ := takes_bracketed (by decide) rfl (by decide) item hw hb
  rw [whole]
  exact ⟨space, hs, (takes_expect "(").bind run⟩

end Params

/-! ### Tags -/

/-- The node of a tag is read if the parser of its keyword reads what is behind the keyword. -/
theorem readsNode_of_tag {n : Node} {keyword : String} {tokens : List Token} {more : List Piece} {p : Nat → Parser Node}
    (hn : pieces extra n = .tag keyword tokens :: more) (hk : isIdentifier keyword)
    (ht : ∀ bound, ∃ next : Cursor → String → Parser Node,
      tag (nodes bound) (expression (bound + 1)) (bound + 1) = (do let opening ← get; next opening (← openTag)) ∧
        ∀ opening, next opening keyword = p bound)
    (h : ∀ bound gap chars text after, IsBlank gap → Written tokens chars → Composed more text →
      (chars ++ ("%\x7d".toList ++ (text ++ after))).length < bound →
      Takes (p bound) (gap ++ (chars ++ ("%\x7d".toList ++ (text ++ after)))) n after) : ReadsNode extra n := by
  intro chars hw bound rest hb
  rw [hn] at hw
  obtain ⟨first, text, rfl, hf, hm⟩ := composed_cons.1 hw
  obtain ⟨next, whole, own⟩ := ht bound
  rw [List.append_assoc] at hb ⊢
  refine takes_markup whole hk hf fun opening space inside hs hi hl => ?_
  rw [own]
  exact h bound space inside text rest hs hi hm (by omega)

section Tags

variable (hg : IsBlank gap) (hb : (chars ++ ("%\x7d".toList ++ after)).length < depth)
include hg hb

theorem takes_extendTag (hp : Printable e) (hw : Written (tokensAt extra 0 e) chars) :
    Takes (extendTag (expression depth)) (gap ++ (chars ++ ("%\x7d".toList ++ after))) (.extend e) after :=
  (takes_expression hp hw hg hb stops_close).bind (takes_close.bind .pure)

theorem takes_assignTag {name : String} (hn : isIdentifier name) (hp : Printable e)
    (hw : Written (.word name :: .mark "=" :: tokensAt extra 0 e) chars) :
    Takes (assignTag (expression depth)) (gap ++ (chars ++ ("%\x7d".toList ++ after))) (.assign name e) after := by
  obtain ⟨space, _, hne, hs, hm, rfl⟩ := written_word_cons hw
  obtain ⟨between, value, -, hbetween, hv, rfl⟩ := written_mark_cons hm
  simp only [List.append_assoc] at hb ⊢
  have shorter : (value ++ ("%\x7d".toList ++ after)).length < depth := by
    simp only [List.length_append] at hb ⊢
    omega
  have run := takes_expression hp hv hbetween shorter stops_close
  refine (takes_identifier hn hg (endsWord_of_isBlank hs hne)).bind ((takes_skipBlank hs (isSolid_cons rfl)).bind ?_)
  exact (takes_expect "=").bind (run.bind (takes_close.bind .pure))

theorem takes_inclusionTag {ignoreMissing withContext : Bool} (hp : Printable e)
    (hw : Written (tokensAt extra 0 e ++ inclusionModifiers ignoreMissing withContext) chars) :
    Takes (inclusionTag (expression depth)) (gap ++ (chars ++ ("%\x7d".toList ++ after)))
      (.inclusion e ignoreMissing withContext) after := by
  obtain ⟨name, modifiers, rfl, hn, hm⟩ := written_append.1 hw
  rw [List.append_assoc] at hb ⊢
  have behind : Stops 0 (modifiers ++ ("%\x7d".toList ++ after)) := by
    refine stops_of_wordFirst ?_ hm
    cases ignoreMissing with
    | true => exact .inr ⟨_, _, rfl, by decide, rfl⟩
    | false =>
      cases withContext with
      | true => exact .inl rfl
      | false => exact .inr ⟨_, _, rfl, by decide, rfl⟩
  have run := takes_expression hp hn hg hb behind
  cases ignoreMissing with
  | true =>
    obtain ⟨between, _, hne, hbetween, hmissing, rfl⟩ := written_word_cons hm
    obtain ⟨space, context, hne', hs, hcontext, rfl⟩ := written_word_cons hmissing
    simp only [List.append_assoc] at run ⊢
    obtain ⟨last, hlast, found⟩ := takes_contextModifier hcontext hs
    refine run.bind ((takes_consumeWord_here (by decide) (endsWord_of_isBlank hbetween hne)).bind ?_)
    refine (takes_expectWord (by decide) hbetween (endsWord_of_isBlank hs hne')).bind ?_
    exact found.bind ((takes_closeTag hlast).bind .pure)
  | false =>
    obtain ⟨last, hlast, found⟩ := takes_contextModifier hm isBlank_nil
    have other : WordFirst (· ≠ "ignore") (inclusionModifiers false withContext) := by
      cases withContext with
      | true => exact .inl rfl
      | false => exact .inr ⟨_, _, rfl, by decide, by decide⟩
    have ignore : Takes (consumeWord "ignore") ([] ++ (modifiers ++ ("%\x7d".toList ++ after))) false _ :=
      takes_consumeWord_absent (by decide) isBlank_nil other hm
    exact run.bind (ignore.bind (found.bind ((takes_closeTag hlast).bind .pure)))

theorem takes_importTag {name : String} (hn : isIdentifier name) (hp : Printable e)
    (hw : Written (tokensAt extra 0 e ++ [.word "as", .word name]) chars) :
    Takes (importTag (expression depth)) (gap ++ (chars ++ ("%\x7d".toList ++ after))) (.importAs e name) after := by
  obtain ⟨template, behind, rfl, ht, hm⟩ := written_append.1 hw
  rw [List.append_assoc] at hb ⊢
  have words : WordFirst (wordLevel? · = none) [.word "as", .word name] := .inr ⟨_, _, rfl, by decide, rfl⟩
  have run := takes_expression hp ht hg hb (stops_of_wordFirst words hm)
  obtain ⟨between, _, hne, hbetween, hname, rfl⟩ := written_word_cons hm
  obtain ⟨space, hs, hne', rfl⟩ := written_keyword hname
  simp only [List.append_assoc] at run ⊢
  have word := takes_identifier hn hbetween (endsWord_of_isBlank hs hne' :
    EndsWord (space ++ ("%\x7d".toList ++ after)))
  refine run.bind ((takes_expectWord_here (by decide) (endsWord_of_isBlank hbetween hne)).bind ?_)
  exact word.bind ((takes_contextModifier_none hs).bind (takes_close.bind .pure))

theorem takes_importFromTag {names : List (String × String)} (hne : names ≠ [])
    (hn : ∀ pair ∈ names, isIdentifier pair.1 ∧ isIdentifier pair.2) (hp : Printable e)
    (hw : Written (tokensAt extra 0 e ++ .word "import" :: commaSeparated (names.map tokensOfImport)) chars)
    (hd : (chars ++ ("%\x7d".toList ++ after)).length < bound) :
    Takes (importFromTag (expression depth) bound) (gap ++ (chars ++ ("%\x7d".toList ++ after))) (.importFrom e names)
      after := by
  obtain ⟨template, behind, rfl, ht, hm⟩ := written_append.1 hw
  rw [List.append_assoc] at hb hd ⊢
  have words : WordFirst (wordLevel? · = none) (.word "import" :: commaSeparated (names.map tokensOfImport)) :=
    .inr ⟨_, _, rfl, by decide, rfl⟩
  have run := takes_expression hp ht hg hb (stops_of_wordFirst words hm)
  obtain ⟨between, list, hne', hbetween, hnames, rfl⟩ := written_word_cons hm
  simp only [List.append_assoc] at hd run ⊢
  have shorter : list.length < bound := by
    simp only [List.length_append] at hd
    omega
  have items := takes_listOf hne (fun pair m _ hw => nameAt_importedName (hn pair m) hw) hnames hbetween shorter
    (stops_close.solid : IsSolid ("%\x7d".toList ++ after)) nofun (startsWithWord_cons (by decide) rfl rfl)
  refine run.bind ((takes_expectWord_here (by decide) (endsWord_of_isBlank hbetween hne')).bind ?_)
  have context : Takes contextModifier ([] ++ ("%\x7d".toList ++ after)) true _ :=
    takes_contextModifier_none isBlank_nil
  exact items.bind (context.bind (takes_close.bind .pure))

end Tags

end Parser

end Folio.Template
