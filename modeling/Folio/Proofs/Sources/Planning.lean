import Folio.Proofs.Namespace.Layers
import Folio.Proofs.Sources.Collision
import Folio.Proofs.Template.Filling
import Folio.Proofs.Template.Globals
import Mathlib.Data.List.Forall2

/-! Plans of outputs. Each source has one plan, in the order of the sources; plans are given only if no two outputs have
the same path, and are refused only if two have. The stem of a source is shown wherever the pattern writes its variable
and has not bound it, whatever the variables say. -/
namespace Folio.Sources

open Template (inlineName renderText renderNode textAlone)

variable {pattern base : String} {vars : Namespace} {locale : Locale} {source : String} {plan : Plan}

/-! ### Plans of single sources -/

/-- The variables that a pattern is written with for a source. -/
def namespaceOf (vars : Namespace) (source : String) : Namespace :=
  .mergeLayers [some vars, some (.ofList [(stemVariable, .string (stem source))])]

/-- The output of a source is what the pattern gives for it, at the base. -/
structure IsPlan (pattern : String) (vars : Namespace) (base : String) (locale : Locale) (source : String) (plan : Plan) :
    Prop where
  source_eq : plan.source = source
  output : ∃ name, renderText pattern (namespaceOf vars source) locale = .ok name ∧ plan.output = Path.join base name
  missing_eq : plan.missing = Placeholder.missing pattern (namespaceOf vars source)

theorem planOne_eq_ok_iff :
    planOne pattern vars base locale source = .ok plan ↔ IsPlan pattern vars base locale source plan := by
  have whole : planOne pattern vars base locale source =
      ((renderText pattern (namespaceOf vars source) locale).mapError Error.render).bind fun name =>
        .ok ⟨source, Path.join base name, Placeholder.missing pattern (namespaceOf vars source)⟩ := rfl
  rw [whole]
  constructor
  · intro planned
    cases shown : renderText pattern (namespaceOf vars source) locale with
    | error cause =>
      rw [shown] at planned
      cases planned
    | ok name =>
      rw [shown] at planned
      cases planned
      exact ⟨rfl, ⟨name, shown, rfl⟩, rfl⟩
  · rintro ⟨source_eq, ⟨name, shown, output_eq⟩, missing_eq⟩
    have written : plan = ⟨source, Path.join base name, Placeholder.missing pattern (namespaceOf vars source)⟩ :=
      (Plan.mk.injEq ..).mpr ⟨source_eq, output_eq, missing_eq⟩
    rw [shown, written]
    rfl

/-- The stem hides whatever the variables have under its name. -/
theorem text_stemVariable (vars : Namespace) (source : String) :
    (((namespaceOf vars source).get? stemVariable).getD .undefined).text = stem source := by
  have stem : (namespaceOf vars source).get? stemVariable = some (Value.string (stem source)).readDates := by
    rw [namespaceOf, Namespace.get?_mergeLayers]
    rfl
  rw [stem, Option.getD_some, Value.text_readDates]
  rfl

/-! ### Plans of all sources -/

theorem mapM_eq_ok_iff {ε α β : Type} {f : α → Except ε β} {as : List α} {bs : List β} :
    as.mapM f = .ok bs ↔ List.Forall₂ (fun a b => f a = .ok b) as bs := by
  induction as generalizing bs with
  | nil => cases bs <;> simp [pure, Except.pure]
  | cons a as ih =>
    rw [List.mapM_cons]
    cases first : f a with
    | error cause => cases bs <;> simp [bind, Except.bind, first]
    | ok b =>
      cases rest : as.mapM f with
      | error cause => cases bs <;> simp [bind, Except.bind, first, rest, ← ih]
      | ok others => cases bs <;> simp [bind, Except.bind, pure, Except.pure, first, rest, ← ih]

section Sources

variable (pattern : String) (sources : List String) (vars : Namespace) (base : String) (locale : Locale)

theorem plan_eq : Sources.plan pattern sources vars base locale =
    (sources.mapM (planOne pattern vars base locale)).bind fun plans =>
      (collision? plans).elim (.ok plans) fun (output, named) => .error (.outputCollision output named) := by
  cases planned : sources.mapM (planOne pattern vars base locale) with
  | error cause => simp only [Sources.plan, planned, bind, Except.bind]
  | ok plans =>
    simp only [Sources.plan, planned, bind, Except.bind]
    cases collision? plans <;> rfl

/-- Where every source has a plan, they are given as they are if no two meet, or else the least collision is. -/
theorem plan_of_forall₂ {plans : List Plan} (each : List.Forall₂ (IsPlan pattern vars base locale) sources plans) :
    Sources.plan pattern sources vars base locale =
      (collision? plans).elim (.ok plans) fun (output, named) => .error (.outputCollision output named) := by
  have planned : sources.mapM (planOne pattern vars base locale) = .ok plans :=
    mapM_eq_ok_iff.2 (each.imp fun _ _ => planOne_eq_ok_iff.2)
  rw [plan_eq, planned]
  rfl

theorem exists_plans (renders : ∀ source ∈ sources, ∃ name, renderText pattern (namespaceOf vars source) locale = .ok name) :
    ∃ plans, List.Forall₂ (IsPlan pattern vars base locale) sources plans := by
  induction sources with
  | nil => exact ⟨[], .nil⟩
  | cons source sources ih =>
    rw [List.forall_mem_cons] at renders
    obtain ⟨name, shown⟩ := renders.1
    obtain ⟨plans, each⟩ := ih renders.2
    exact ⟨⟨source, Path.join base name, Placeholder.missing pattern (namespaceOf vars source)⟩ :: plans,
      .cons ⟨rfl, ⟨name, shown, rfl⟩, rfl⟩ each⟩

theorem forall₂_of_plan {plans : List Plan} (h : Sources.plan pattern sources vars base locale = .ok plans) :
    List.Forall₂ (IsPlan pattern vars base locale) sources plans ∧ Apart plans := by
  rw [plan_eq] at h
  cases planned : sources.mapM (planOne pattern vars base locale) with
  | error cause =>
    rw [planned] at h
    cases h
  | ok found =>
    rw [planned] at h
    cases meeting : collision? found with
    | some collision =>
      simp [Except.bind, meeting] at h
    | none =>
      obtain rfl : found = plans := by simpa [Except.bind, meeting] using h
      exact ⟨(mapM_eq_ok_iff.1 planned).imp fun _ _ => planOne_eq_ok_iff.1, collision?_eq_none_iff.1 meeting⟩

end Sources

/-- If there are plans, there is one for each source, in their order, and no two of them have outputs with the same path.
If the pattern gives a name for every source, there are plans unless two entries of the list have outputs with the same
path, and then the least such path is reported with the sources of all its entries. And whatever the variables say, a
pattern that does not bind `fn` is shown with the stem of the source in place of every output of `fn`; one that does
shows the stem wherever rendering comes to such an output and nothing has bound `fn`. -/
theorem plans_apart (pattern : String) (sources : List String) (vars : Namespace) (base : String) (locale : Locale) :
    (∀ plans, Sources.plan pattern sources vars base locale = .ok plans →
      List.Forall₂ (IsPlan pattern vars base locale) sources plans ∧ Apart plans) ∧
    ((∀ source ∈ sources, ∃ name, renderText pattern (namespaceOf vars source) locale = .ok name) →
      ∃ plans, List.Forall₂ (IsPlan pattern vars base locale) sources plans ∧
        (Apart plans → Sources.plan pattern sources vars base locale = .ok plans) ∧
        ((∃ output named, Sources.plan pattern sources vars base locale = .error (.outputCollision output named)) ↔
          ∃ a b, [a, b].Sublist plans ∧ Path.same a.output b.output) ∧
        ∀ output named, Sources.plan pattern sources vars base locale = .error (.outputCollision output named) →
          IsCollision plans output named) ∧
    ∀ source template, Template.read inlineName pattern = .ok template →
      (Node.Spare stemVariable template.nodes → renderText pattern (namespaceOf vars source) locale =
        textAlone locale template.name (Node.fillAll stemVariable (stem source) template.nodes)
          (namespaceOf vars source)) ∧
      ∀ moment, Template.Arises locale template (namespaceOf vars source) moment →
        moment.node = .output (.var stemVariable) → ¬ moment.context.Binds stemVariable →
        (renderNode (.alone locale) moment.jumps moment.place moment.node moment.context).1 = .ok (stem source) := by
  refine ⟨fun plans => forall₂_of_plan pattern sources vars base locale, fun renders => ?_, fun source template read => ?_⟩
  · obtain ⟨plans, each⟩ := exists_plans pattern sources vars base locale renders
    have whole := plan_of_forall₂ pattern sources vars base locale each
    refine ⟨plans, each, fun apart => ?_, ?_, fun output named failed => ?_⟩
    · rw [whole, collision?_eq_none_iff.2 apart]
      rfl
    · rw [← not_apart_iff, ← collision?_eq_none_iff, whole]
      cases collision? plans <;> simp
    · rw [whole] at failed
      cases meeting : collision? plans with
      | none =>
        rw [meeting] at failed
        cases failed
      | some collision =>
        rw [meeting] at failed
        cases failed
        exact isCollision_of_collision? meeting
  · constructor
    · intro spare
      have shown : renderText pattern (namespaceOf vars source) locale =
          textAlone locale template.name template.nodes (namespaceOf vars source) := by
        rw [renderText, read]
        exact Template.render_alone locale template _
      rw [shown, ← Template.textAlone_fillAll locale spare, text_stemVariable]
    · intro moment arises node free
      have globals := arises.globals_eq
      rw [node, Template.renderNode_output_var free, globals, text_stemVariable]

theorem plans_apart_of_offers :
    let pattern := "\x7b\x7b fn \x7d\x7d"
    let vars : Namespace := .ofList [(stemVariable, .string "x")]
    (∃ plans, Sources.plan pattern ["docs/offer.md", "01-02-2024"] vars "out" .english = .ok plans ∧
      List.Forall₂ (IsPlan pattern vars "out" .english) ["docs/offer.md", "01-02-2024"] plans ∧ Apart plans) ∧
    (∃ plans, List.Forall₂ (IsPlan pattern vars "out" .english) ["b/offer", "a/offer.md"] plans ∧
      Sources.plan pattern ["b/offer", "a/offer.md"] vars "out" .english =
        .error (.outputCollision "out/offer" ["b/offer", "a/offer.md"]) ∧
      IsCollision plans "out/offer" ["b/offer", "a/offer.md"]) ∧
    ∃ template, Template.read inlineName pattern = .ok template ∧ Node.Spare stemVariable template.nodes ∧
      renderText pattern (namespaceOf vars "docs/offer.md") .english =
        textAlone .english template.name (Node.fillAll stemVariable "offer" template.nodes)
          (namespaceOf vars "docs/offer.md") ∧
      ∃ moment, Template.Arises .english template (namespaceOf vars "docs/offer.md") moment ∧
        moment.node = .output (.var stemVariable) ∧ ¬ moment.context.Binds stemVariable ∧
        (renderNode (.alone .english) moment.jumps moment.place moment.node moment.context).1 = .ok "offer" := by
  intro pattern vars
  have name : stem "docs/offer.md" = "offer" := by decide
  refine ⟨?_, ?_, ?_⟩
  · have outputs : (Sources.plan pattern ["docs/offer.md", "01-02-2024"] vars "out" .english).toOption.map
        (·.map (·.output)) = some ["out/offer", "out/01-02-2024"] := by decide +kernel
    cases planned : Sources.plan pattern ["docs/offer.md", "01-02-2024"] vars "out" .english with
    | error cause =>
      rw [planned] at outputs
      cases outputs
    | ok plans => exact ⟨plans, rfl, (plans_apart pattern _ vars "out" .english).1 plans planned⟩
  · have renders : ∀ source ∈ ["b/offer", "a/offer.md"],
        ∃ name, renderText pattern (namespaceOf vars source) .english = .ok name := by
      rw [List.forall_mem_cons, List.forall_mem_singleton]
      exact ⟨⟨"offer", by decide +kernel⟩, ⟨"offer", by decide +kernel⟩⟩
    have cause : (match Sources.plan pattern ["b/offer", "a/offer.md"] vars "out" .english with
      | .error cause => some cause
      | .ok _ => none) = some (.outputCollision "out/offer" ["b/offer", "a/offer.md"]) := by decide +kernel
    obtain ⟨plans, each, -, -, least⟩ := (plans_apart pattern _ vars "out" .english).2.1 renders
    cases planned : Sources.plan pattern ["b/offer", "a/offer.md"] vars "out" .english with
    | error other =>
      rw [planned] at cause
      cases cause
      exact ⟨plans, each, rfl, least _ _ planned⟩
    | ok plans =>
      rw [planned] at cause
      cases cause
  · obtain ⟨template, read, spare⟩ := Template.exists_of_read
      (show (Template.read inlineName pattern).toOption.any (fun t => decide (Node.Spare stemVariable t.nodes)) by
        decide +kernel)
    have spare := of_decide_eq_true spare
    obtain ⟨filled, shows⟩ := (plans_apart pattern [] vars "out" .english).2.2 "docs/offer.md" template read
    let ns := namespaceOf vars "docs/offer.md"
    let moment : Template.Moment :=
      ⟨.within (.alone .english) 0, ⟨[], 0, 0⟩, .outermost, .output (.var stemVariable), .ofNamespace ns⟩
    have arises : Template.Arises .english template ns moment :=
      .inBody rfl (show moment ∈ Template.momentsWithin (.alone .english) 1 ⟨[], 0, 0⟩ .outermost [moment.node]
        (.ofNamespace ns) from List.mem_append_left _ (List.mem_singleton_self _))
    have free : ¬ moment.context.Binds stemVariable := by
      rintro ⟨scope, m, found⟩
      cases List.mem_singleton.1 m
      cases found
    exact ⟨template, read, spare, name ▸ filled spare, moment, arises, rfl, free, name ▸ shows moment arises rfl free⟩

/-- A pattern that binds `fn` itself shows what it has bound it to. -/
theorem plan_of_assigned_stem :
    stem "a.md" = "a" ∧
      (Sources.plan "\x7b% set fn = 'x' %\x7d\x7b\x7b fn \x7d\x7d" ["a.md"] .empty "" .english).toOption.map
        (·.map (·.output)) = some ["x"] :=
  ⟨by decide, by decide +kernel⟩

end Folio.Sources
