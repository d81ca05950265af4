import Folio.Proofs.Analysis.Inclusion
import Folio.Proofs.Template.Frame
import Folio.Proofs.Template.Moment
import Folio.Proofs.Template.Settling

/-! Inclusions without context. What such an inclusion shows follows from the name of the template and from the numbers
of inclusions and of macro calls around it. Of the variables, the macros and the blocks around it, none is seen in the
template, nor in those that it includes or extends, and none is changed. -/
namespace Folio.Template

section Alone

variable (setting : Setting) (jumps : Jumps) (elsewhere : Place → View → List Node → Context → List Moment)
  (depth calls : Nat)

/-- What an inclusion without context comes to, at a depth and within some macro calls. -/
def shownAlone (ignoreMissing : Bool) (name : String) : Except RenderError String :=
  match setting.template? name with
  | .error cause => .error cause
  | .ok none => if ignoreMissing then .ok "" else .error (.missingTemplate name)
  | .ok (some included) =>
    if maxNesting ≤ depth then .error (.inclusionTooDeep name)
    else (document setting jumps included (depth + 1) calls (.ofNamespace .empty)).1

/-- The moments of a template that is included without context. -/
def momentsAlone (name : String) : List Moment :=
  match setting.template? name with
  | .ok (some included) =>
    if maxNesting ≤ depth then []
    else momentsOfDocument setting jumps elsewhere included (depth + 1) calls ⟨[], true⟩ (.ofNamespace .empty)
  | _ => []

variable {setting jumps elsewhere} {place : Place} {context : Context} {name : Expr}

theorem include?_without_context (name : String) (ignoreMissing : Bool) :
    include? setting jumps place name ignoreMissing false context =
      (shownAlone setting jumps place.depth place.calls ignoreMissing name, context) := by
  rw [include?, shownAlone]
  cases setting.template? name with
  | error cause => rfl
  | ok found =>
    cases found with
    | none => cases ignoreMissing <;> rfl
    | some included =>
      by_cases deep : maxNesting ≤ place.depth
      · simp only [deep, if_true]
        rfl
      · simp only [deep, if_false]
        rfl

/-- The context around the inclusion has a part in the name of the template only. -/
theorem renderNode_without_context (ignoreMissing : Bool) :
    renderNode setting jumps place (.inclusion name ignoreMissing false) context =
      (((eval setting jumps place.calls context name).map Value.text).bind
        (shownAlone setting jumps place.depth place.calls ignoreMissing), context) := by
  rw [renderNode]
  cases value : eval setting jumps place.calls context name with
  | error cause =>
    have failed (next : Value → Rendering String) :
        (evaluate setting jumps place name >>= next) context = (.error cause, context) := by
      change ExceptT.bindCont next (eval setting jumps place.calls context name) context = _
      rw [value]
      rfl
    exact failed _
  | ok shown =>
    rw [evaluate_bind value]
    exact include?_without_context shown.text ignoreMissing

theorem momentsOf_without_context (view : View) (ignoreMissing : Bool) :
    momentsOf setting jumps elsewhere place view (.inclusion name ignoreMissing false) context =
      ⟨jumps, place, view, .inclusion name ignoreMissing false, context⟩ ::
        match (eval setting jumps place.calls context name).map Value.text with
        | .ok name => momentsAlone setting jumps elsewhere place.depth place.calls name
        | .error _ => [] := by
  rw [momentsOf, following, evaluate_apply]
  cases eval setting jumps place.calls context name with
  | error cause => rfl
  | ok value => rfl

end Alone

/-- Two renderings that come to an inclusion without context, with any variables, macros and blocks around it, come to
the same text or error, however many jumps are allowed from some number on, and come to the same nodes with the same
contexts on the way. Neither sees its own context changed. -/
theorem inclusion_without_context (setting : Setting) (budget : Nat) {place place' : Place} {context context' : Context}
    {name : Expr} (depth : place.depth = place'.depth) (calls : place.calls = place'.calls)
    (same : (eval setting (.within setting budget) place.calls context name).map Value.text =
      (eval setting (.within setting budget) place'.calls context' name).map Value.text) (ignoreMissing : Bool) :
    ∃ outcome,
      renderNode setting (.within setting budget) place (.inclusion name ignoreMissing false) context =
        (outcome, context) ∧
      renderNode setting (.within setting budget) place' (.inclusion name ignoreMissing false) context' =
        (outcome, context') ∧
      (Settled outcome → ∀ more, budget ≤ more →
        renderNode setting (.within setting more) place (.inclusion name ignoreMissing false) context =
          (outcome, context) ∧
        renderNode setting (.within setting more) place' (.inclusion name ignoreMissing false) context' =
          (outcome, context')) ∧
      ∀ view view',
        (momentsOf setting (.within setting budget) (momentsWithin setting budget) place view
          (.inclusion name ignoreMissing false) context).tail =
        (momentsOf setting (.within setting budget) (momentsWithin setting budget) place' view'
          (.inclusion name ignoreMissing false) context').tail := by
  have second : renderNode setting (.within setting budget) place' (.inclusion name ignoreMissing false) context' =
      ((renderNode setting (.within setting budget) place (.inclusion name ignoreMissing false) context).1,
        context') := by
    rw [renderNode_without_context, renderNode_without_context, same, depth, calls]
  refine ⟨_, by rw [renderNode_without_context], second, fun settled more le => ?_, fun view view' => ?_⟩
  · have approximates (place : Place) : Rendering.Approximates
        (renderNode setting (.within setting budget) place (.inclusion name ignoreMissing false))
        (renderNode setting (.within setting more) place (.inclusion name ignoreMissing false)) :=
      approximates_renderNode (approximate_within setting le) place _
    constructor
    · rw [← (approximates place context).resolve_left settled, renderNode_without_context]
    · rw [← (approximates place' context').resolve_left (by rw [second]; exact settled), second]
  · rw [momentsOf_without_context, momentsOf_without_context, same, depth, calls]
    rfl

/-- A template that extends another one, with a macro and a variable of its own, shows nothing of the variables, the
macros and the blocks of the same names around its inclusion. -/
theorem inclusion_without_context_of_card :
    let texts := [("frame", "<\x7b% block b %\x7d\x7b% endblock %\x7d>"),
      ("card", "\x7b% extends 'frame' %\x7d\x7b% block b %\x7d\x7b% macro m() %\x7d\x7b\x7b x \x7d\x7d!" ++
        "\x7b% endmacro %\x7d\x7b% set y = 1 %\x7d\x7b\x7b m() \x7d\x7d\x7b\x7b y \x7d\x7d\x7b\x7b user \x7d\x7d" ++
        "\x7b% endblock %\x7d")]
    let node : Node := .inclusion (.literal (.string "card")) false false
    let context := ((Context.ofNamespace (.ofList [("user", .string "ada")])).push [("x", .int 7)]).bindMacro "m"
      ⟨⟨"m", [], [.text "outer"]⟩, []⟩
    ∃ library, Library.ofList texts = .ok library ∧
      renderNode library.setting (.within library.setting 9) ⟨[("b", [.text "outer"])], 3, 1⟩ node context =
        (.ok "<!1>", context) ∧
      renderNode library.setting (.within library.setting 9) ⟨[], 3, 1⟩ node (.ofNamespace .empty) =
        (.ok "<!1>", .ofNamespace .empty) := by
  intro texts node context
  have shown : (Library.ofList texts).toOption.map (fun library =>
      (renderNode library.setting (.within library.setting 9) ⟨[], 3, 1⟩ node (.ofNamespace .empty)).1) =
        some (.ok "<!1>") := by
    rw [Library.ofList_eq_ofChars (.cons rfl (.cons (Text.append_eq_ofList (Text.append_eq_ofList rfl rfl) rfl) .nil))]
    decide +kernel
  cases made : Library.ofList texts with
  | error error => rw [made] at shown; cases shown
  | ok library =>
    rw [made] at shown
    have alone : (renderNode library.setting (.within library.setting 9) ⟨[], 3, 1⟩ node (.ofNamespace .empty)).1 =
        .ok "<!1>" := Option.some.inj shown
    have depth : (Place.mk [("b", [.text "outer"])] 3 1).depth = (Place.mk [] 3 1).depth := rfl
    have calls : (Place.mk [("b", [.text "outer"])] 3 1).calls = (Place.mk [] 3 1).calls := rfl
    have same :
        (eval library.setting (.within library.setting 9) 1 context (.literal (.string "card"))).map Value.text =
          (eval library.setting (.within library.setting 9) 1 (.ofNamespace .empty) (.literal (.string "card"))).map
            Value.text := rfl
    obtain ⟨outcome, first, second, -⟩ := inclusion_without_context library.setting 9 depth calls same false
    obtain rfl : outcome = .ok "<!1>" := by
      rw [← alone, second]
    exact ⟨library, rfl, first, second⟩

end Folio.Template
