import Folio.Proofs.Template.Inheritance

/-! Blocks that are overridden. The blocks that a document offers are those at its top and those inside of other blocks;
a block in a branch, a loop, a filter, a macro or a call is not among them. A page that defines a block once shows its
body in place of the layout's just if it offers it. -/
namespace Folio

open Template
open Node (partsOfAll bodyNamed?)

/-! ### Blocks on offer -/

namespace Node

/-- All bodies of blocks of that name, wherever they stand, in the order of the text. -/
def definitions (block : String) (nodes : List Node) : List (List Node) :=
  (partsOfAll nodes).filterMap (bodyNamed? block)

/-- The block stands at the top or inside of other blocks only. -/
inductive Offers (block : String) (body : List Node) : List Node → Prop
  | here {nodes : List Node} : Offers block body (.block block body :: nodes)
  | inside {outer : String} {inner nodes : List Node} : Offers block body inner →
    Offers block body (.block outer inner :: nodes)
  | later {node : Node} {nodes : List Node} : Offers block body nodes → Offers block body (node :: nodes)

variable {block : String} {body nodes : List Node}

theorem Offers.mem_blocksIn (h : Offers block body nodes) : (block, body) ∈ blocksIn nodes := by
  induction h with
  | here => simp [blocksIn, blocksOf]
  | inside _ ih => simp [blocksIn, blocksOf, ih]
  | later _ ih => simp [blocksIn, ih]

/-- The blocks that are collected from a document are those that it offers. -/
theorem mem_blocksIn_iff : (block, body) ∈ blocksIn nodes ↔ Offers block body nodes := by
  refine ⟨?_, Offers.mem_blocksIn⟩
  induction nodes using induction_inner with
  | nil => exact nofun
  | cons node nodes inside ih =>
    intro m
    rw [blocksIn] at m
    rcases List.mem_append.1 m with m | m
    · cases node with
      | block outer inner =>
        rw [blocksOf] at m
        rcases List.mem_cons.1 m with e | m
        · cases e
          exact .here
        · exact .inside (inside inner (List.mem_singleton_self _) m)
      | _ => cases m
    · exact .later (ih m)

theorem Offers.mem_partsOfAll (h : Offers block body nodes) : .block block body ∈ partsOfAll nodes := by
  induction h with
  | here => simp [partsOfAll, parts]
  | inside _ ih => simp [partsOfAll, parts, ih]
  | later _ ih => simp [partsOfAll, ih]

theorem mem_definitions_iff : body ∈ definitions block nodes ↔ .block block body ∈ partsOfAll nodes := by
  rw [definitions, List.mem_filterMap]
  constructor
  · rintro ⟨node, m, shows⟩
    cases node with
    | block name inner =>
      rw [bodyNamed?] at shows
      split at shows
      · rename_i same
        obtain rfl := Option.some.inj shows
        exact same ▸ m
      · cases shows
    | _ => cases shows
  · exact fun m => ⟨_, m, by simp [bodyNamed?]⟩

/-- A block that is defined once is looked up under its name if it is on offer, and is not found if not. -/
theorem lookup_blocksIn_of_once (once : definitions block nodes = [body]) :
    (Offers block body nodes → (blocksIn nodes).lookup block = some body) ∧
    (¬ Offers block body nodes → (blocksIn nodes).lookup block = none) := by
  have only {found : List Node} (e : (blocksIn nodes).lookup block = some found) :
      found = body ∧ Offers block body nodes := by
    obtain ⟨before, after, split, -⟩ := List.lookup_eq_some_iff.1 e
    have offers : Offers block found nodes := mem_blocksIn_iff.1 (by simp [split])
    obtain rfl : found = body := by simpa [once] using mem_definitions_iff.2 offers.mem_partsOfAll
    exact ⟨rfl, offers⟩
  cases e : (blocksIn nodes).lookup block with
  | none =>
    refine ⟨fun offers => ?_, fun _ => rfl⟩
    simpa using List.lookup_eq_none_iff.1 e _ offers.mem_blocksIn
  | some found =>
    obtain ⟨rfl, offers⟩ := only e
    exact ⟨fun _ => rfl, fun hidden => absurd offers hidden⟩

end Node

/-! ### Blocks in their place -/

namespace Template

/-- The nodes show a block with that body of its own, outside of branches and loops, and are filled with other nodes in
its place. Where another block on the way is overridden, the place is in the body that overrides it. -/
inductive Filled (overrides : Overrides) (block : String) (own replacement : List Node) : List Node → List Node → Prop
  | here {nodes : List Node} : Filled overrides block own replacement (.block block own :: nodes) (replacement ++ nodes)
  | inside {outer : String} {body filled nodes : List Node} :
    Filled overrides block own replacement ((overrides.lookup outer).getD body) filled →
    Filled overrides block own replacement (.block outer body :: nodes) (filled ++ nodes)
  | filtered {filter : String} {args : List Expr} {body filled nodes : List Node} :
    Filled overrides block own replacement body filled →
    Filled overrides block own replacement (.filterBlock filter args body :: nodes)
      (.filterBlock filter args filled :: nodes)
  | later {node : Node} {nodes filled : List Node} : Filled overrides block own replacement nodes filled →
    Filled overrides block own replacement (node :: nodes) (node :: filled)

theorem Rendering.Approximates.trans {α : Type} {a b c : Rendering α} (h : Approximates a b) (h' : Approximates b c) :
    Approximates a c := by
  intro context
  rcases h context with unsettled | same
  · exact .inl unsettled
  · rw [same]
    exact h' context

section Filled

variable (setting : Setting) {place : Place} {block outer : String} {own replacement nodes filled body : List Node}

/-- A block shows the body that counts for its name, with one jump less at most. -/
theorem approximates_block (n : Nat) :
    Rendering.Approximates (renderNode setting (.within setting n) place (.block outer body))
      (renderNodes setting (.within setting n) place ((place.overrides.lookup outer).getD body)) := by
  rw [renderNode]
  cases place.overrides.lookup outer with
  | none => exact .refl _
  | some replacement =>
    cases n with
    | zero => exact fun _ => .inl rfl
    | succ n => exact approximates_renderNodes (approximate_within setting (Nat.le_succ n)) place replacement

theorem block_approximates (n : Nat) :
    Rendering.Approximates (renderNodes setting (.within setting n) place ((place.overrides.lookup outer).getD body))
      (renderNode setting (.within setting (n + 1)) place (.block outer body)) := by
  rw [renderNode]
  cases place.overrides.lookup outer with
  | none => exact approximates_renderNodes (approximate_within setting (Nat.le_succ n)) place body
  | some replacement => exact .refl _

/-- What the nodes come to, the filled ones come to with as many jumps. -/
theorem Filled.approximates (h : Filled place.overrides block own replacement nodes filled)
    (counts : (place.overrides.lookup block).getD own = replacement) (n : Nat) :
    Rendering.Approximates (renderNodes setting (.within setting n) place nodes)
      (renderNodes setting (.within setting n) place filled) := by
  induction h with
  | here =>
    rw [renderNodes, renderNodes_append, ← counts]
    exact (approximates_block setting n).bind fun _ => .refl _
  | inside _ ih =>
    rw [renderNodes, renderNodes_append]
    exact ((approximates_block setting n).trans ih).bind fun _ => .refl _
  | filtered _ ih =>
    rw [renderNodes, renderNodes, renderNode, renderNode]
    exact (ih.bind fun _ => .refl _).bind fun _ => .refl _
  | later _ ih =>
    rw [renderNodes, renderNodes]
    exact (Rendering.Approximates.refl _).bind fun _ => ih.bind fun _ => .refl _

/-- What the filled nodes come to, the nodes come to with some more jumps. -/
theorem Filled.exists_approximates (h : Filled place.overrides block own replacement nodes filled)
    (counts : (place.overrides.lookup block).getD own = replacement) :
    ∃ more, ∀ n, Rendering.Approximates (renderNodes setting (.within setting n) place filled)
      (renderNodes setting (.within setting (n + more)) place nodes) := by
  have rest (n more : Nat) (nodes : List Node) : Rendering.Approximates
      (renderNodes setting (.within setting n) place nodes)
      (renderNodes setting (.within setting (n + more)) place nodes) :=
    approximates_renderNodes (approximate_within setting (Nat.le_add_right n more)) place nodes
  induction h with
  | @here nodes =>
    refine ⟨1, fun n => ?_⟩
    rw [renderNodes, renderNodes_append, ← counts]
    exact (block_approximates setting n).bind fun _ => (rest n 1 nodes).bind fun _ => .refl _
  | @inside outer body filled nodes _ ih =>
    obtain ⟨more, ih⟩ := ih
    refine ⟨more + 1, fun n => ?_⟩
    rw [renderNodes, renderNodes_append]
    exact ((ih n).trans (block_approximates setting (n + more))).bind fun _ =>
      (rest n (more + 1) nodes).bind fun _ => .refl _
  | @filtered filter args body filled nodes _ ih =>
    obtain ⟨more, ih⟩ := ih
    refine ⟨more, fun n => ?_⟩
    rw [renderNodes, renderNodes, renderNode, renderNode]
    have arguments : Rendering.Approximates (evaluateAll setting (.within setting n) place args)
        (evaluateAll setting (.within setting (n + more)) place args) :=
      approximates_evaluateAll (approximate_within setting (Nat.le_add_right n more)) place args
    exact ((ih n).bind fun _ => arguments.bind fun _ => .refl _).bind fun _ => (rest n more nodes).bind fun _ => .refl _
  | @later node nodes filled _ ih =>
    obtain ⟨more, ih⟩ := ih
    refine ⟨more, fun n => ?_⟩
    rw [renderNodes, renderNodes]
    have first : Rendering.Approximates (renderNode setting (.within setting n) place node)
        (renderNode setting (.within setting (n + more)) place node) :=
      approximates_renderNode (approximate_within setting (Nat.le_add_right n more)) place node
    exact first.bind fun _ => (ih n).bind fun _ => .refl _

end Filled

/-! ### Layouts -/

section Layouts

variable {setting : Setting} {context : Context}

theorem laidOut_succ {place : Place} {nodes : List Node} {e : Expr} {name : Value} {parent : Template}
    (extends? : parent? nodes = some e) (value : eval setting (.within setting 0) place.calls context e = .ok name)
    (found : require setting name.text = .ok parent) (start : String) (allowed : Nat) :
    laidOut setting context start (allowed + 1) place nodes =
      laidOut setting context start allowed ⟨place.overrides ++ blocksIn nodes, place.depth + 1, place.calls⟩
        parent.nodes := by
  rw [laidOut.eq_def, extends?]
  simp only [value, found, bind, Except.bind]

/-- A document with a parent has a layout only as the parent has one. -/
theorem exists_of_laidOut {start : String} {allowed : Nat} {place : Place} {nodes : List Node} {e : Expr}
    {there : Place × List Node} (extends? : parent? nodes = some e)
    (laid : laidOut setting context start allowed place nodes = .ok there) :
    ∃ name parent less, eval setting (.within setting 0) place.calls context e = .ok name ∧
      require setting name.text = .ok parent ∧ allowed = less + 1 ∧
      laidOut setting context start less ⟨place.overrides ++ blocksIn nodes, place.depth + 1, place.calls⟩
        parent.nodes = .ok there := by
  rw [laidOut.eq_def, extends?] at laid
  dsimp only at laid
  cases value : eval setting (.within setting 0) place.calls context e with
  | error cause => rw [value] at laid; cases laid
  | ok name =>
    cases found : require setting name.text with
    | error cause => simp only [value, found, bind, Except.bind] at laid; cases laid
    | ok parent =>
      simp only [value, found, bind, Except.bind] at laid
      cases allowed with
      | zero => cases laid
      | succ less => exact ⟨name, parent, less, rfl, found, rfl, laid⟩

/-- The parents of a document, and the bodies that they give to blocks, do not depend on what overrides them. -/
theorem laidOut_eq {start : String} {allowed : Nat} {place there : Place} {nodes outermost : List Node}
    (laid : laidOut setting context start allowed place nodes = .ok (there, outermost)) :
    ∃ inherited steps, there = ⟨place.overrides ++ inherited, place.depth + steps, place.calls⟩ ∧
      ∀ start allowed overrides depth, steps ≤ allowed →
        laidOut setting context start allowed ⟨overrides, depth, place.calls⟩ nodes =
          .ok (⟨overrides ++ inherited, depth + steps, place.calls⟩, outermost) := by
  cases extends? : parent? nodes with
  | none =>
    have here (start : String) (allowed : Nat) (place : Place) :
        laidOut setting context start allowed place nodes = .ok (place, nodes) := by
      rw [laidOut.eq_def, extends?]
    obtain ⟨rfl, rfl⟩ := Prod.mk.inj (Except.ok.inj ((here start allowed place).symm.trans laid))
    exact ⟨[], 0, by simp, fun start allowed overrides depth _ => by rw [here]; simp⟩
  | some e =>
    obtain ⟨name, parent, less, value, found, rfl, above⟩ := exists_of_laidOut extends? laid
    obtain ⟨inherited, steps, rfl, same⟩ := laidOut_eq above
    refine ⟨blocksIn nodes ++ inherited, steps + 1, by simp [Nat.add_assoc, Nat.add_comm 1], ?_⟩
    intro start allowed overrides depth enough
    obtain ⟨allowed, rfl⟩ : ∃ less, allowed = less + 1 := ⟨allowed - 1, by omega⟩
    have value : eval setting (.within setting 0) (Place.mk overrides depth place.calls).calls context e = .ok name :=
      value
    rw [laidOut_succ extends? value found, same _ _ _ _ (Nat.le_of_succ_le_succ enough)]
    simp [Nat.add_assoc, Nat.add_comm 1]
termination_by allowed

/-- A page whose parent has a layout has that layout, with its own blocks in front of those of the parent. -/
theorem layout_of_extends {page parent : Template} {globals : Namespace} {e : Expr} {name : Value} {place : Place}
    {nodes : List Node} (extends? : parent? page.nodes = some e)
    (value : eval setting (.within setting 0) 0 (.ofNamespace globals) e = .ok name)
    (found : setting.template? name.text = .ok (some parent))
    (laid : layout setting parent globals = .ok (place, nodes)) (short : place.depth < maxNesting) :
    layout setting page globals = .ok (⟨blocksIn page.nodes ++ place.overrides, place.depth + 1, 0⟩, nodes) := by
  obtain ⟨inherited, steps, rfl, same⟩ := laidOut_eq laid
  obtain ⟨allowed, deep⟩ : ∃ allowed, maxNesting = allowed + 1 := ⟨maxNesting - 1, rfl⟩
  have few : steps ≤ allowed := by
    simp only at short
    omega
  rw [layout, deep, laidOut_succ extends? value (require_of_template? found), same _ _ _ _ few]
  simp [Nat.add_comm]

end Layouts

/-- The nodes come to the result at that place, if enough jumps are allowed. -/
def EndsIn (setting : Setting) (place : Place) (nodes : List Node) (globals : Namespace)
    (result : Except RenderError String) : Prop :=
  ∃ budget, (renderNodes setting (.within setting budget) place nodes (.ofNamespace globals)).1 = result

/-- A page comes to what its layout comes to with the body that counts for a block in the place of the block. -/
theorem renderWithin_of_filled {setting : Setting} {page : Template} {globals : Namespace} {place : Place}
    {block : String} {own replacement nodes filled : List Node}
    (laid : layout setting page globals = .ok (place, nodes))
    (counts : (place.overrides.lookup block).getD own = replacement)
    (h : Filled place.overrides block own replacement nodes filled) {result : Except RenderError String}
    (settled : Settled result) :
    (∃ budget, renderWithin setting budget page globals = result) ↔ EndsIn setting place filled globals result := by
  have whole (budget : Nat) : renderWithin setting budget page globals =
      ((Jumps.within setting budget).body place nodes (.ofNamespace globals)).1 := by
    have bare : (Context.ofNamespace globals).Bare := rfl
    have laid : laidOut setting (.ofNamespace globals) page.name maxNesting ⟨[], 0, 0⟩ page.nodes =
        .ok (place, nodes) := laid
    rw [renderWithin, document, Nat.sub_zero, layOut_eq bare, laid]
  constructor
  · rintro ⟨budget, rfl⟩
    rw [whole] at settled ⊢
    cases budget with
    | zero => exact absurd rfl settled
    | succ budget =>
      refine ⟨budget, ?_⟩
      have same := (h.approximates setting counts budget (.ofNamespace globals)).resolve_left settled
      exact congrArg Prod.fst same.symm
  · rintro ⟨budget, rfl⟩
    obtain ⟨more, approximates⟩ := h.exists_approximates setting counts
    refine ⟨budget + more + 1, ?_⟩
    rw [whole]
    exact congrArg Prod.fst ((approximates budget (.ofNamespace globals)).resolve_left settled).symm

/-- A page that defines a block once, somewhere, and whose parent shows a block of that name outside of branches and
loops, shows its own body there if it offers the block, and what the parent shows there if it does not. A page offers
the blocks at its top and those inside of other blocks, which are those that are collected from it. -/
theorem renderWithin_of_definition {setting : Setting} {page parent : Template} {globals : Namespace} {e : Expr}
    {name : Value} {place : Place} {nodes : List Node} {block : String} {body : List Node}
    (extends? : parent? page.nodes = some e)
    (value : eval setting (.within setting 0) 0 (.ofNamespace globals) e = .ok name)
    (found : setting.template? name.text = .ok (some parent))
    (laid : layout setting parent globals = .ok (place, nodes)) (short : place.depth < maxNesting)
    (once : Node.definitions block page.nodes = [body]) :
    let there : Place := ⟨blocksIn page.nodes ++ place.overrides, place.depth + 1, 0⟩
    (∀ block body, (block, body) ∈ blocksIn page.nodes ↔ Node.Offers block body page.nodes) ∧
    (Node.Offers block body page.nodes → ∀ own filled, Filled there.overrides block own body nodes filled →
      ∀ result, Settled result →
        ((∃ budget, renderWithin setting budget page globals = result) ↔ EndsIn setting there filled globals result)) ∧
    (¬ Node.Offers block body page.nodes → ∀ own filled,
      Filled there.overrides block own ((place.overrides.lookup block).getD own) nodes filled →
      ∀ result, Settled result →
        ((∃ budget, renderWithin setting budget page globals = result) ↔
          EndsIn setting there filled globals result)) := by
  intro there
  have laid : layout setting page globals = .ok (there, nodes) := layout_of_extends extends? value found laid short
  have lookup : there.overrides.lookup block =
      ((blocksIn page.nodes).lookup block).or (place.overrides.lookup block) := List.lookup_append
  refine ⟨fun _ _ => Node.mem_blocksIn_iff, fun offers own filled h result => ?_, fun hidden own filled h result => ?_⟩
  · refine renderWithin_of_filled laid ?_ h
    rw [lookup, (Node.lookup_blocksIn_of_once once).1 offers]
    rfl
  · refine renderWithin_of_filled laid ?_ h
    rw [lookup, (Node.lookup_blocksIn_of_once once).2 hidden, Option.none_or]

end Template

namespace Library

/-- A block inside of another block is on offer, and its body is shown in the place of the layout's. -/
theorem renderWithin_of_nested_definition :
    let texts := [("base", "\x7b% block a %\x7dbase\x7b% endblock %\x7d!"),
      ("page", "\x7b% extends 'base' %\x7d\x7b% block b %\x7d\x7b% block a %\x7dpage\x7b% endblock %\x7d" ++
        "\x7b% endblock %\x7d")]
    ∃ library base page body, ofList texts = .ok library ∧ library.get? "base" = some base ∧
      library.get? "page" = some page ∧ Node.definitions "a" page.nodes = [body] ∧ Node.Offers "a" body page.nodes ∧
      ∃ budget, renderWithin library.setting budget page .empty = .ok "page!" := by
  intro texts
  have shown : (ofList texts).toOption.bind (fun library => (library.get? "base").bind fun base =>
      (library.get? "page").bind fun page => (Node.definitions "a" page.nodes).head?.map fun body =>
        (decide (parentName? page.nodes = some "base" ∧ (parent? base.nodes).isNone ∧ startsWithBlock "a" base.nodes ∧
            (Node.definitions "a" page.nodes).length = 1 ∧ ((blocksIn page.nodes).lookup "a").isSome),
          (renderNodes library.setting (.within library.setting 0) ⟨blocksIn page.nodes ++ [], 1, 0⟩
            (body ++ base.nodes.tail) (.ofNamespace .empty)).1)) = some (true, .ok "page!") := by
    rw [ofList_eq_ofChars (.cons rfl (.cons (Text.append_eq_ofList rfl rfl) .nil))]
    decide +kernel
  cases made : ofList texts with
  | error error => rw [made] at shown; cases shown
  | ok library =>
    rw [made] at shown
    obtain ⟨_, ⟨⟩, shown⟩ := Option.bind_eq_some_iff.1 shown
    obtain ⟨base, foundBase, shown⟩ := Option.bind_eq_some_iff.1 shown
    obtain ⟨page, foundPage, shown⟩ := Option.bind_eq_some_iff.1 shown
    obtain ⟨body, first, shown⟩ := Option.map_eq_some_iff.1 shown
    simp only [Prod.mk.injEq, decide_eq_true_eq, Option.isNone_iff_eq_none] at shown
    obtain ⟨⟨extends?, single, starts, once, offered⟩, text⟩ := shown
    have once : Node.definitions "a" page.nodes = [body] := by
      obtain ⟨other, only⟩ := List.length_eq_one_iff.1 once
      rw [only] at first ⊢
      rw [Option.some.inj first]
    have offers : Node.Offers "a" body page.nodes := by
      by_contra hidden
      rw [(Node.lookup_blocksIn_of_once once).2 hidden] at offered
      cases offered
    have laid : layout library.setting base .empty = .ok (⟨[], 0, 0⟩, base.nodes) := by
      rw [layout, laidOut.eq_def, single]
    obtain ⟨own, filled⟩ :
        ∃ own, Filled (blocksIn page.nodes ++ []) "a" own body base.nodes (body ++ base.nodes.tail) := by
      rw [startsWithBlock.eq_def] at starts
      split at starts
      · rename_i block own rest e
        obtain rfl := of_decide_eq_true starts
        exact ⟨own, e ▸ .here⟩
      · cases starts
    have shows := (renderWithin_of_definition (parent?_of_parentName? extends?) rfl (template?_of_get? foundBase) laid
      (by decide) once).2.1 offers own _ filled (.ok "page!") (.ok _)
    exact ⟨library, base, page, body, rfl, foundBase, foundPage, once, offers, shows.2 ⟨0, text⟩⟩

/-- Of a page that defines a block once, in a branch, a loop, a filter, a macro or a call, no block is collected, and
the block of the layout is shown as it stands there. -/
theorem render_of_hidden_definition :
    let block := "\x7b% block a %\x7dpage\x7b% endblock %\x7d"
    ∀ wrapped ∈ ["\x7b% if true %\x7d" ++ block ++ "\x7b% endif %\x7d",
        "\x7b% for x in [1] %\x7d" ++ block ++ "\x7b% endfor %\x7d",
        "\x7b% filter upper %\x7d" ++ block ++ "\x7b% endfilter %\x7d",
        "\x7b% macro m() %\x7d" ++ block ++ "\x7b% endmacro %\x7d",
        "\x7b% call m() %\x7d" ++ block ++ "\x7b% endcall %\x7d"],
      ∃ library base page, ofList [("base", "\x7b% block a %\x7dbase\x7b% endblock %\x7d"),
          ("page", "\x7b% extends 'base' %\x7d" ++ wrapped)] = .ok library ∧
        library.get? "base" = some base ∧ library.get? "page" = some page ∧
        (Node.definitions "a" base.nodes).length = 1 ∧ (Node.definitions "a" page.nodes).length = 1 ∧
        blocksIn page.nodes = [] ∧ library.render "page" .empty = .ok "base" := by
  intro block wrapped m
  have shown : (ofList [("base", "\x7b% block a %\x7dbase\x7b% endblock %\x7d"),
      ("page", "\x7b% extends 'base' %\x7d" ++ wrapped)]).toOption.bind (fun library =>
        (library.get? "base").bind fun base => (library.get? "page").map fun page =>
          ((Node.definitions "a" base.nodes).length, (Node.definitions "a" page.nodes).length,
            (blocksIn page.nodes).length, library.render "page" .empty)) =
      some (1, 1, 0, .ok "base") := by
    obtain _ | ⟨_, _ | ⟨_, _ | ⟨_, _ | ⟨_, _ | ⟨_, ⟨⟩⟩⟩⟩⟩⟩ := m
    all_goals
      rw [ofList_eq_ofChars (.cons rfl (.cons (Text.append_eq_ofList rfl
        (Text.append_eq_ofList (Text.append_eq_ofList rfl rfl) rfl)) .nil))]
      decide +kernel
  cases made : ofList [("base", "\x7b% block a %\x7dbase\x7b% endblock %\x7d"),
      ("page", "\x7b% extends 'base' %\x7d" ++ wrapped)] with
  | error error => rw [made] at shown; cases shown
  | ok library =>
    rw [made] at shown
    obtain ⟨_, ⟨⟩, shown⟩ := Option.bind_eq_some_iff.1 shown
    obtain ⟨base, foundBase, shown⟩ := Option.bind_eq_some_iff.1 shown
    obtain ⟨page, foundPage, shown⟩ := Option.map_eq_some_iff.1 shown
    simp only [Prod.mk.injEq, List.length_eq_zero_iff] at shown
    obtain ⟨onceBase, oncePage, none, text⟩ := shown
    exact ⟨library, base, page, rfl, foundBase, foundPage, onceBase, oncePage, none, text⟩

end Library

end Folio
