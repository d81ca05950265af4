import Folio.Analysis.Missing
import Folio.Proofs.Analysis.Decision
import Folio.Proofs.Template.Address
import Folio.Proofs.Template.Named

/-! Visits. The analysis walks the nodes at some of the addresses in a template, each under the names that it takes to
be bound there, and what it reports is what it reports at these nodes. Names that are bound are never given up inside,
nothing behind them is reported, and what the namespace has under them makes no difference. -/
namespace Folio

open Node (AllNamed partsOfAll partsOfArms partsOfOption)

variable {ns : Namespace} {locals : List String}

/-! ### Reported paths -/

/-- None of the paths starts with one of the names. -/
def Foreign (locals paths : List String) : Prop :=
  ∀ path ∈ paths, ∀ name ∈ (Namespace.segments path).head?, name ∉ locals

theorem foreign_nil : Foreign locals [] :=
  nofun

theorem foreign_append {paths more : List String} (h : Foreign locals paths) (hm : Foreign locals more) :
    Foreign locals (paths ++ more) :=
  List.forall_mem_append.2 ⟨h, hm⟩

namespace Expr

theorem foreign_missingPath {e : Expr} (undotted : e.Undotted) : Foreign locals (missingPath ns locals e) := by
  intro path m name root here
  rw [missingPath] at m
  split at m
  · rename_i found hp
    split at m
    · cases m
    · rename_i free
      cases List.mem_singleton.1 m
      rw [Bool.or_eq_true, not_or, isLocal, head?_segments_of_path? hp undotted, Option.mem_def.1 root] at free
      exact free.1 (by simpa using here)
  · cases m

section Named

variable {left right : Expr} {es : List Expr}

theorem named_parts (h : ∀ name ∈ left.names ++ right.names, Template.isIdentifier name) : left.Named ∧ right.Named :=
  List.forall_mem_append.1 h

theorem named_args (h : ∀ name ∈ left.names ++ namesOfAll es, Template.isIdentifier name) :
    left.Named ∧ ∀ e ∈ es, e.Named := by
  rw [List.forall_mem_append, namesOfAll_eq] at h
  exact ⟨h.1, fun e m name here => h.2 name (List.mem_flatMap.2 ⟨e, m, here⟩)⟩

end Named

mutual

/-- Nothing behind a bound name is reported. -/
theorem foreign_missing : ∀ {e : Expr}, e.Named → Foreign locals (e.missing ns locals)
  | .literal _, _ => foreign_nil
  | .var _, h => foreign_missingPath h.undotted
  | .lookup _ _, h =>
    foreign_append (foreign_append (foreign_missingPath h.undotted) (foreign_missing (named_parts h).1))
      (foreign_missing (named_parts h).2)
  | .and _ _, h | .or _ _, h | .compare _ _ _, h | .binary _ _ _, h =>
    foreign_append (foreign_missing (named_parts h).1) (foreign_missing (named_parts h).2)
  | .not inner, h | .isDefined inner, h | .neg inner, h => foreign_missing (e := inner) h
  | .filter name target args, h => by
    rw [missing]
    split
    · exact foreign_missingAll (named_args h).2
    · exact foreign_append (foreign_missing (named_args h).1) (foreign_missingAll (named_args h).2)
  | .call _ _, h | .test _ _ _ _, h =>
    foreign_append (foreign_missing (named_args h).1) (foreign_missingAll (named_args h).2)
  | .list items, h => foreign_missingAll fun e m name here =>
    h name (by rw [names, namesOfAll_eq]; exact List.mem_flatMap.2 ⟨e, m, here⟩)
  | .dict entries, h => foreign_missingEntries h
  | .inlineIf value condition otherwise, h => by
    rw [Named, names, List.forall_mem_append, List.forall_mem_append] at h
    exact foreign_append (foreign_append (foreign_missing h.1.1) (foreign_missing h.1.2)) (foreign_missingOption h.2)

theorem foreign_missingAll : ∀ {es : List Expr}, (∀ e ∈ es, e.Named) → Foreign locals (missingAll ns locals es)
  | [], _ => foreign_nil
  | _ :: _, h => foreign_append (foreign_missing (List.forall_mem_cons.1 h).1)
    (foreign_missingAll (List.forall_mem_cons.1 h).2)

theorem foreign_missingEntries : ∀ {entries : List (Expr × Expr)},
    (∀ name ∈ namesOfEntries entries, Template.isIdentifier name) → Foreign locals (missingEntries ns locals entries)
  | [], _ => foreign_nil
  | (key, value) :: entries, h => by
    rw [namesOfEntries, List.forall_mem_append, List.forall_mem_append] at h
    exact foreign_append (foreign_append (foreign_missing h.1.1) (foreign_missing h.1.2)) (foreign_missingEntries h.2)

theorem foreign_missingOption : ∀ {e : Option Expr}, (∀ name ∈ namesOfOption e, Template.isIdentifier name) →
    Foreign locals (missingOption ns locals e)
  | none, _ => foreign_nil
  | some _, h => foreign_missing h

end

end Expr

/-! ### Names that are bound -/

namespace Node

variable (ns)

theorem walk_inclusion (locals : List String) (name : Expr) (ignoreMissing withContext : Bool) :
    ((Node.inclusion name ignoreMissing withContext).walk ns locals).2 = locals := by
  rw [walk]
  split <;> rfl

mutual

/-- No name is given up behind a node. -/
theorem subset_walk : ∀ (node : Node) (locals : List String), locals ⊆ (node.walk ns locals).2
  | .text _, _ | .output _, _ | .loop .., _ | .callBlock .., _ | .filterBlock .., _ | .extend _, _ =>
    List.Subset.refl _
  | .branch arms otherwise, locals => subset_walkArms arms (subset_walkOption otherwise) locals
  | .inclusion .., locals => by
    rw [walk_inclusion]
    exact List.Subset.refl _
  | .block _ body, locals => subset_walkAll body locals
  | .define .., _ | .assign .., _ | .importAs .., _ | .importFrom .., _ => List.subset_append_left _ _

theorem subset_walkAll : ∀ (nodes : List Node) (locals : List String), locals ⊆ (walkAll ns locals nodes).2
  | [], _ => List.Subset.refl _
  | node :: nodes, locals => List.Subset.trans (subset_walk node locals) (subset_walkAll nodes _)

theorem subset_walkArms : ∀ (arms : List (Expr × List Node)) {otherwise : List String → Findings × List String},
    (∀ locals, locals ⊆ (otherwise locals).2) → ∀ locals, locals ⊆ (walkArms ns locals arms otherwise).2
  | [], _, ho, locals => ho locals
  | (condition, body) :: arms, _, ho, locals => by
    rw [walkArms]
    split
    · exact subset_walkAll body locals
    · exact subset_walkArms arms ho locals
    · exact List.Subset.trans (subset_walkAll body locals) (subset_walkArms arms ho _)

theorem subset_walkOption : ∀ (body : Option (List Node)) (locals : List String),
    locals ⊆ (walkOption ns locals body).2
  | none, _ => List.Subset.refl _
  | some body, locals => subset_walkAll body locals

end

/-! ### Visits -/

/-- The names under which the analysis walks an arm, or what follows the arms, if it does. It walks the arms that can
run, one after the other. -/
def localsOfArm : List String → List (Expr × List Node) → Nat → Option (List String)
  | locals, [], 0 => some locals
  | _, [], _ + 1 => none
  | locals, (condition, body) :: arms, i =>
    match condition.truth ns locals, i with
    | .true, 0 | .unknown, 0 => some locals
    | .true, _ + 1 | .false, 0 => none
    | .false, i + 1 => localsOfArm locals arms i
    | .unknown, i + 1 => localsOfArm (walkAll ns locals body).2 arms i

/-- The names under which the analysis walks a body of a node, if it does. -/
def localsOfBody (locals : List String) : Node → Nat → Option (List String)
  | .branch arms _, i => localsOfArm ns locals arms i
  | .block _ _, _ => some locals
  | node, i => node.bodies[i]?.map (fun (bound, _) => locals ++ bound)

/-- The names under which the analysis walks the node at an address, if it does. -/
def localsAt : Address → List String → List Node → Option (List String)
  | _, _, [] => none
  | .here, locals, _ :: _ => some locals
  | .next rest, locals, node :: nodes => localsAt rest (node.walk ns locals).2 nodes
  | .inside i rest, locals, node :: _ =>
    (node.localsOfBody ns locals i).bind (fun inner => node.inner[i]?.bind (localsAt rest inner))

/-- What the analysis reports at a node itself. -/
def reports (locals : List String) : Node → List String
  | .output e => e.missing ns locals
  | node => Expr.missingAll ns locals node.arguments

variable {ns}

theorem subset_localsOfArm {arms : List (Expr × List Node)} {i : Nat} {inner : List String}
    (h : localsOfArm ns locals arms i = some inner) : locals ⊆ inner := by
  fun_induction localsOfArm ns locals arms i with
  | case1 | case3 | case4 => cases h; exact List.Subset.refl _
  | case2 | case5 | case6 => cases h
  | case7 _ _ _ _ _ _ ih => exact ih h
  | case8 locals _ body _ _ _ ih => exact List.Subset.trans (subset_walkAll ns body locals) (ih h)

theorem subset_localsOfBody {node : Node} {i : Nat} {inner : List String}
    (h : node.localsOfBody ns locals i = some inner) : locals ⊆ inner := by
  rw [localsOfBody.eq_def] at h
  split at h
  · exact subset_localsOfArm h
  · cases h
    exact List.Subset.refl _
  · obtain ⟨body, -, rfl⟩ := Option.map_eq_some_iff.1 h
    exact List.subset_append_left _ _

/-- No name is given up on the way to a node. -/
theorem subset_localsAt {address : Address} {nodes : List Node} {inner : List String}
    (h : localsAt ns address locals nodes = some inner) : locals ⊆ inner := by
  induction address generalizing locals nodes with
  | here =>
    cases nodes with
    | nil => cases h
    | cons node nodes =>
      cases h
      exact List.Subset.refl _
  | next rest ih =>
    cases nodes with
    | nil => cases h
    | cons node nodes => exact List.Subset.trans (subset_walk ns node locals) (ih h)
  | inside i rest ih =>
    cases nodes with
    | nil => cases h
    | cons node nodes =>
      obtain ⟨bound, hb, h⟩ := Option.bind_eq_some_iff.1 h
      obtain ⟨body, -, h⟩ := Option.bind_eq_some_iff.1 h
      exact List.Subset.trans (subset_localsOfBody hb) (ih h)

theorem missing_append (a b : Findings) : (a ++ b).missing = a.missing ++ b.missing :=
  rfl

theorem inclusions_append (a b : Findings) : (a ++ b).inclusions = a.inclusions ++ b.inclusions :=
  rfl

/-- What a walk finds in the arms it finds in the bodies that it walks. -/
theorem mem_missing_walkArms_iff {path : String} {arms : List (Expr × List Node)}
    {otherwise : List String → Findings × List String} :
    path ∈ (walkArms ns locals arms otherwise).1.missing ↔ ∃ i inner, localsOfArm ns locals arms i = some inner ∧
      (i = arms.length ∧ path ∈ (otherwise inner).1.missing ∨
        ∃ body, (arms.map (·.2))[i]? = some body ∧ path ∈ (walkAll ns inner body).1.missing) := by
  induction arms generalizing locals with
  | nil =>
    constructor
    · exact fun m => ⟨0, locals, rfl, .inl ⟨rfl, m⟩⟩
    · rintro ⟨i, inner, h, ⟨rfl, m⟩ | ⟨body, stands, -⟩⟩
      · cases h
        exact m
      · cases stands
  | cons arm arms ih =>
    obtain ⟨condition, body⟩ := arm
    rw [← Nat.or_exists_add_one]
    cases ht : condition.truth ns locals with
    | true => simp [walkArms, localsOfArm, ht]
    | false => simp [walkArms, localsOfArm, ht, ih]
    | unknown => simp [walkArms, localsOfArm, ht, ih, missing_append]

/-- What a walk finds in a statement it finds in its arguments and its bodies. -/
theorem missing_walk_eq {node : Node} (h : node.bodies ≠ []) :
    (node.walk ns locals).1.missing = Expr.missingAll ns locals node.arguments ++
      node.bodies.flatMap (fun (bound, body) => (walkAll ns (locals ++ bound) body).1.missing) := by
  cases node with
  | loop targets items body otherwise =>
    cases otherwise <;>
      simp [walk, walkOption, missing_append, arguments, Expr.missingAll, bodies, Findings.none]
  | define | callBlock | filterBlock => simp [walk, missing_append, argumentFindings, bodies]
  | _ => exact absurd rfl h

theorem mem_flatMap_bodies_iff {path : String} {bodies : List (List String × List Node)} :
    path ∈ bodies.flatMap (fun (bound, body) => (walkAll ns (locals ++ bound) body).1.missing) ↔
      ∃ (i : Nat) (inner : List String) (body : List Node),
        bodies[i]?.map (fun entry => locals ++ entry.1) = some inner ∧
        (bodies.map (·.2))[i]? = some body ∧ path ∈ (walkAll ns inner body).1.missing := by
  rw [List.mem_flatMap]
  constructor
  · rintro ⟨⟨bound, body⟩, entry, m⟩
    obtain ⟨i, stands⟩ := List.mem_iff_getElem?.1 entry
    exact ⟨i, locals ++ bound, body, by rw [stands]; rfl, by rw [List.getElem?_map, stands]; rfl, m⟩
  · rintro ⟨i, inner, body, hi, hb, m⟩
    rw [List.getElem?_map] at hb
    obtain ⟨⟨bound, body⟩, stands, rfl⟩ := Option.map_eq_some_iff.1 hb
    rw [stands] at hi
    cases hi
    exact ⟨(bound, body), List.mem_of_getElem? stands, m⟩

/-- What a walk finds in a branch it finds in the bodies that it walks. -/
theorem mem_missing_branch_iff {path : String} {arms : List (Expr × List Node)} {otherwise : Option (List Node)} :
    path ∈ ((Node.branch arms otherwise).walk ns locals).1.missing ↔ ∃ i inner body,
      localsOfArm ns locals arms i = some inner ∧ (Node.branch arms otherwise).inner[i]? = some body ∧
        path ∈ (walkAll ns inner body).1.missing := by
  have option (inner : List String) : path ∈ (walkOption ns inner otherwise).1.missing ↔
      ∃ body, otherwise = some body ∧ path ∈ (walkAll ns inner body).1.missing := by
    cases otherwise <;> simp [walkOption, Findings.none]
  have last (i : Nat) (body : List Node) : otherwise.toList[i]? = some body ↔ i = 0 ∧ otherwise = some body := by
    cases otherwise <;> cases i <;> simp
  rw [walk, mem_missing_walkArms_iff]
  refine exists_congr fun i => exists_congr fun names => ?_
  rw [exists_and_left, inner, option, List.getElem?_append, List.length_map]
  refine and_congr_right fun _ => ?_
  rcases Nat.lt_trichotomy i arms.length with short | rfl | long
  · simp [short, Nat.ne_of_lt short]
  · simp [last]
  · simp [last, Nat.not_lt.2 (Nat.le_of_lt long), Nat.ne_of_gt long, Nat.sub_ne_zero_of_lt long]

theorem mem_missing_walk_iff {node : Node} {path : String} :
    path ∈ (node.walk ns locals).1.missing ↔ path ∈ node.reports ns locals ∨ ∃ i inner body,
      node.localsOfBody ns locals i = some inner ∧ node.inner[i]? = some body ∧
        path ∈ (walkAll ns inner body).1.missing := by
  cases node with
  | branch arms otherwise =>
    rw [mem_missing_branch_iff]
    simp [reports, arguments, Expr.missingAll, localsOfBody]
  | block name body =>
    constructor
    · exact fun m => .inr ⟨0, locals, body, rfl, rfl, m⟩
    · rintro (m | ⟨i, inner, body, hi, stands, m⟩)
      · cases m
      · cases hi
        cases List.mem_singleton.1 (List.mem_of_getElem? stands)
        exact m
  | loop | define | callBlock | filterBlock =>
    rw [missing_walk_eq (by simp [bodies]), List.mem_append, mem_flatMap_bodies_iff]
    rfl
  | inclusion name ignoreMissing withContext =>
    rw [walk]
    split <;> simp [reports, arguments, Expr.missingAll, localsOfBody, bodies, Findings.none]
  | _ => simp [walk, reports, arguments, Expr.missingAll, localsOfBody, bodies, Findings.none]

/-- What a walk finds it finds at the nodes that it visits. -/
theorem mem_missing_walkAll_iff {path : String} {nodes : List Node} :
    path ∈ (walkAll ns locals nodes).1.missing ↔ ∃ address node inner, at? address nodes = some node ∧
      localsAt ns address locals nodes = some inner ∧ path ∈ node.reports ns inner := by
  induction nodes using induction_inner generalizing locals with
  | nil =>
    constructor
    · exact nofun
    · rintro ⟨address, node, inner, stands, -⟩
      cases address <;> cases stands
  | cons node nodes inside next =>
    rw [walkAll, missing_append, List.mem_append, mem_missing_walk_iff, next]
    constructor
    · rintro ((m | ⟨i, names, body, hi, stands, m⟩) | ⟨address, found, inner, stands, visit, m⟩)
      · exact ⟨.here, node, locals, rfl, rfl, m⟩
      · obtain ⟨address, found, inner, stands', visit, m⟩ := (inside body (List.mem_of_getElem? stands)).1 m
        exact ⟨.inside i address, found, inner, by rw [at?, stands]; exact stands',
          by rw [localsAt, hi, stands]; exact visit, m⟩
      · exact ⟨.next address, found, inner, stands, visit, m⟩
    · rintro ⟨address, found, inner, stands, visit, m⟩
      cases address with
      | here =>
        cases stands
        cases visit
        exact .inl (.inl m)
      | next rest => exact .inr ⟨rest, found, inner, stands, visit, m⟩
      | inside i rest =>
        obtain ⟨body, hb, stands⟩ := Option.bind_eq_some_iff.1 stands
        obtain ⟨names, hi, visit⟩ := Option.bind_eq_some_iff.1 visit
        rw [hb] at visit
        exact .inl (.inr ⟨i, names, body, hi, hb,
          (inside body (List.mem_of_getElem? hb)).2 ⟨rest, found, inner, stands, visit, m⟩⟩)

/-! ### Independence of what is bound -/

/-- The namespaces agree on the names that are not bound. -/
def AgreeOff (ns other : Namespace) (locals : List String) : Prop :=
  ∀ name, name ∉ locals → ns.get? name = other.get? name

variable {other : Namespace}

theorem AgreeOff.mono {more : List String} (h : AgreeOff ns other locals) (sub : locals ⊆ more) :
    AgreeOff ns other more :=
  fun name free => h name fun m => free (sub m)

theorem AgreeOff.truth_eq {condition : Expr} (h : AgreeOff ns other locals) (named : condition.Named) :
    condition.truth ns locals = condition.truth other locals := by
  rw [Expr.truth, Expr.truth, Expr.known?_congr named.undotted fun name _ free => h name free]

mutual

/-- The names that are bound behind a node do not depend on the namespace at names that are bound before it. -/
theorem AgreeOff.walk_eq : ∀ {node : Node} {locals : List String}, AgreeOff ns other locals → AllNamed node.parts →
    (node.walk ns locals).2 = (node.walk other locals).2
  | .text _, _, _, _ | .output _, _, _, _ | .assign .., _, _, _ | .extend _, _, _, _ | .importAs .., _, _, _
  | .importFrom .., _, _, _ => rfl
  | .loop .., _, _, _ | .define .., _, _, _ | .callBlock .., _, _, _ | .filterBlock .., _, _, _ => by rw [walk, walk]
  | .inclusion .., _, _, _ => (walk_inclusion ..).trans (walk_inclusion ..).symm
  | .block name body, locals, h, named => by
    rw [parts, allNamed_cons] at named
    exact walkAll_eq h named.2
  | .branch arms otherwise, locals, h, named => by
    rw [parts, allNamed_cons, allNamed_append] at named
    have conditions (arm) (m : arm ∈ arms) : arm.1.Named := named.1 _ (List.mem_map_of_mem m)
    exact walkArms_eq h conditions named.2.1 fun more => walkOption_eq more named.2.2

theorem AgreeOff.walkAll_eq : ∀ {nodes : List Node} {locals : List String}, AgreeOff ns other locals →
    AllNamed (partsOfAll nodes) → (walkAll ns locals nodes).2 = (walkAll other locals nodes).2
  | [], _, _, _ => rfl
  | node :: nodes, locals, h, named => by
    rw [partsOfAll, allNamed_append] at named
    have here := walk_eq h named.1
    rw [walkAll, walkAll]
    simp only [← here]
    exact walkAll_eq (h.mono (subset_walk ns node locals)) named.2

theorem AgreeOff.walkArms_eq : ∀ {arms : List (Expr × List Node)} {locals : List String}
    {otherwise otherwise' : List String → Findings × List String}, AgreeOff ns other locals →
    (∀ arm ∈ arms, arm.1.Named) → AllNamed (partsOfArms arms) →
    (∀ {locals}, AgreeOff ns other locals → (otherwise locals).2 = (otherwise' locals).2) →
    (walkArms ns locals arms otherwise).2 = (walkArms other locals arms otherwise').2
  | [], _, _, _, h, _, _, ho => ho h
  | (condition, body) :: arms, locals, _, _, h, conditions, named, ho => by
    rw [partsOfArms, allNamed_append] at named
    rw [List.forall_mem_cons] at conditions
    have here := walkAll_eq h named.1
    rw [walkArms, walkArms, h.truth_eq conditions.1]
    cases condition.truth other locals with
    | true => exact here
    | false => exact walkArms_eq h conditions.2 named.2 ho
    | unknown =>
      simp only [← here]
      exact walkArms_eq (h.mono (subset_walkAll ns body locals)) conditions.2 named.2 ho

theorem AgreeOff.walkOption_eq : ∀ {body : Option (List Node)} {locals : List String}, AgreeOff ns other locals →
    AllNamed (partsOfOption body) → (walkOption ns locals body).2 = (walkOption other locals body).2
  | none, _, _, _ => rfl
  | some body, _, h, named => walkAll_eq h (by rwa [partsOfOption] at named)

end

theorem AgreeOff.localsOfArm_eq {arms : List (Expr × List Node)} (conditions : ∀ arm ∈ arms, arm.1.Named)
    (named : AllNamed (partsOfArms arms)) {locals : List String} (h : AgreeOff ns other locals) (i : Nat) :
    localsOfArm ns locals arms i = localsOfArm other locals arms i := by
  induction arms generalizing locals i with
  | nil => cases i <;> rfl
  | cons arm arms ih =>
    obtain ⟨condition, body⟩ := arm
    rw [partsOfArms, allNamed_append] at named
    rw [List.forall_mem_cons] at conditions
    have same := h.truth_eq conditions.1
    cases i with
    | zero => cases ht : condition.truth other locals <;> simp only [localsOfArm, same, ht]
    | succ i =>
      cases ht : condition.truth other locals with
      | true => simp only [localsOfArm, same, ht]
      | false =>
        simp only [localsOfArm, same, ht]
        exact ih conditions.2 named.2 h i
      | unknown =>
        simp only [localsOfArm, same, ht, ← h.walkAll_eq named.1]
        exact ih conditions.2 named.2 (h.mono (subset_walkAll ns body locals)) i

/-- Which bodies of a node are walked, and under which names, does not depend on the namespace at names that are bound.
-/
theorem AgreeOff.localsOfBody_eq {node : Node} (h : AgreeOff ns other locals) (named : AllNamed node.parts) (i : Nat) :
    node.localsOfBody ns locals i = node.localsOfBody other locals i := by
  cases node with
  | branch arms otherwise =>
    rw [parts, allNamed_cons, allNamed_append] at named
    exact h.localsOfArm_eq (fun arm m => named.1 _ (List.mem_map_of_mem m)) named.2.1 i
  | _ => rfl

/-- A node reports nothing behind a name that is bound. -/
theorem foreign_reports {node : Node} (named : ∀ e ∈ node.exprs, e.Named) :
    Foreign locals (node.reports ns locals) := by
  cases node with
  | output e => exact Expr.foreign_missing (named e (List.mem_singleton_self e))
  | define | callBlock | filterBlock => exact Expr.foreign_missingAll named
  | _ => exact foreign_nil

end Node

end Folio
