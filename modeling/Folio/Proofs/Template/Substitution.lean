import Folio.Proofs.Analysis.Inclusion
import Folio.Proofs.Template.Invocation
import Folio.Proofs.Template.Shown
import Mathlib.Data.List.Perm.Subperm
import Mathlib.Logic.Relation

/-! Blocks whose bodies are replaced. The body that replaces a block may contain blocks that are replaced in turn, and
rendering ends exactly if none that it comes to leads back to itself. -/
namespace Folio

open Template
open Node (partsOfAll partsOfArms partsOfOption)
open Relation (ReflTransGen TransGen)

/-! ### Templates of blocks -/

namespace Node

/-- Texts, outputs, branches, blocks and parents. -/
def isLayout : Node → Bool
  | .text _ | .output _ | .branch .. | .block .. | .extend _ => true
  | _ => false

/-- All of the nodes lay out blocks. -/
def AllLayout (nodes : List Node) : Prop :=
  ∀ node ∈ nodes, node.isLayout

instance (nodes : List Node) : Decidable (AllLayout nodes) :=
  inferInstanceAs (Decidable (∀ node ∈ nodes, node.isLayout))

@[simp] theorem allLayout_cons {node : Node} {nodes : List Node} :
    AllLayout (node :: nodes) ↔ node.isLayout ∧ AllLayout nodes :=
  List.forall_mem_cons

@[simp] theorem allLayout_append {nodes more : List Node} :
    AllLayout (nodes ++ more) ↔ AllLayout nodes ∧ AllLayout more :=
  List.forall_mem_append

end Node

open Node (AllLayout)

namespace Template

/-! ### Bodies that lead to one another -/

section Acyclic

variable {bodies : String → Option (List Node)} {meets : List Node → String → Prop}

/-- The body of the first name meets the second one. -/
def LeadsIn (bodies : String → Option (List Node)) (meets : List Node → String → Prop) (first second : String) : Prop :=
  ∃ body, bodies first = some body ∧ meets body second

/-- The nodes meet a name that leads, from one body to the next, to a name that leads back to itself. -/
def RecursIn (bodies : String → Option (List Node)) (meets : List Node → String → Prop) (nodes : List Node) : Prop :=
  ∃ first name, meets nodes first ∧ ReflTransGen (LeadsIn bodies meets) first name ∧
    TransGen (LeadsIn bodies meets) name name

/-- Along a path of names that lead from one to the next, none comes twice, so that the path is not longer than the list
of the names that have bodies. -/
theorem induction_of_path {P : Nat → List Node → Prop} (step : ∀ n nodes,
      (∀ ⦃name body⦄, meets nodes name → bodies name = some body → P n body) → P (n + 1) nodes)
    {keys : List String} (known : ∀ ⦃name body⦄, bodies name = some body → name ∈ keys) {n : Nat} :
    ∀ {path : List String} {nodes : List Node}, path.Nodup → path ⊆ keys →
      (∀ a ∈ path, ∀ b, meets nodes b → TransGen (LeadsIn bodies meets) a b) → ¬ RecursIn bodies meets nodes →
      keys.length < n + path.length → P n nodes := by
  induction n with
  | zero =>
    intro path nodes nodup inside _ _ long
    have short := (List.subperm_of_subset nodup inside).length_le
    omega
  | succ n ih =>
    intro path nodes nodup inside leads clear long
    refine step n nodes fun name body meets found => ?_
    have fresh : name ∉ path := fun old => clear ⟨name, name, meets, .refl, leads name old name meets⟩
    have longer : keys.length < n + (name :: path).length := by
      rw [List.length_cons]
      omega
    refine ih (List.nodup_cons.2 ⟨fresh, nodup⟩) (List.cons_subset.2 ⟨known found, inside⟩) ?_ ?_ longer
    · intro a m b within
      have last := (⟨body, found, within⟩ : LeadsIn bodies _ name b)
      rcases List.mem_cons.1 m with rfl | m
      · exact .single last
      · exact (leads a m name meets).tail last
    · rintro ⟨first, again, within, reach, cycle⟩
      exact clear ⟨name, again, meets, .head ⟨body, found, within⟩ reach, cycle⟩

/-- What holds of nodes if it holds, with one jump less, of the bodies of the names that they meet, holds of nodes from
which nothing leads back to itself, with one jump more than there are names. -/
theorem induction_of_acyclic {P : Nat → List Node → Prop} (step : ∀ n nodes,
      (∀ ⦃name body⦄, meets nodes name → bodies name = some body → P n body) → P (n + 1) nodes)
    {keys : List String} (known : ∀ ⦃name body⦄, bodies name = some body → name ∈ keys)
    {nodes : List Node} (clear : ¬ RecursIn bodies meets nodes) {n : Nat} (long : keys.length < n) : P n nodes :=
  induction_of_path step known List.nodup_nil (List.nil_subset _) nofun clear (by simpa using long)

theorem mem_keys_of_lookup {overrides : Overrides} ⦃name : String⦄ ⦃body : List Node⦄
    (found : overrides.lookup name = some body) : name ∈ overrides.map Prod.fst := by
  obtain ⟨before, after, split, -⟩ := List.lookup_eq_some_iff.1 found
  simp [split]

end Acyclic

/-! ### The blocks that rendering comes to -/

section Meets

variable (setting : Setting) (place : Place) (context : Context)

/-- The node has a text, if enough jumps are allowed. -/
def Finishes (node : Node) : Prop :=
  ∃ n text, (renderNode setting (.within setting n) place node context).1 = .ok text

mutual

/-- Rendering the node comes to a block of the name, and the body of that block is replaced. Bodies that replace blocks
are not looked into. -/
def Meets (name : String) : Node → Prop
  | .branch arms otherwise => MeetsArms name arms (MeetsOption name otherwise)
  | .block block body =>
    if (place.overrides.lookup block).isSome then block = name else MeetsAll name body
  | _ => False

def MeetsAll (name : String) : List Node → Prop
  | [] => False
  | node :: nodes => Meets name node ∨ Finishes setting place context node ∧ MeetsAll name nodes

def MeetsArms (name : String) : List (Expr × List Node) → Prop → Prop
  | [], otherwise => otherwise
  | (condition, body) :: arms, otherwise =>
    match eval setting (.within setting 0) place.calls context condition with
    | .error _ => False
    | .ok value => if value.isTruthy then MeetsAll name body else MeetsArms name arms otherwise

def MeetsOption (name : String) : Option (List Node) → Prop
  | none => False
  | some body => MeetsAll name body

end

/-- The body that replaces the first block comes to the second one. -/
def Leads (first second : String) : Prop :=
  ∃ body, place.overrides.lookup first = some body ∧ MeetsAll setting place context second body

/-- Rendering the nodes comes to a block that leads, from one replaced body to the next, back to itself. -/
def Recurs (nodes : List Node) : Prop :=
  ∃ first name, MeetsAll setting place context first nodes ∧
    ReflTransGen (Leads setting place context) first name ∧ TransGen (Leads setting place context) name name

end Meets

/-- Within so many jumps the action leaves the context alone, and it settles exactly if the bodies do that replace the
blocks it meets. -/
structure Rests (setting : Setting) (place : Place) (context : Context) (n : Nat) (action : Rendering String)
    (meets : String → Prop) : Prop where
  keeps : (action context).2 = context
  settled_iff : Settled (action context).1 ↔ ∀ ⦃name body⦄, meets name → place.overrides.lookup name = some body →
    Settled ((Jumps.within setting n).body place body context).1

section Rests

variable {setting : Setting} {place : Place} {context : Context} {n : Nat}

theorem Rests.of_settled {action : Rendering String} (keeps : (action context).2 = context)
    (settled : Settled (action context).1) : Rests setting place context n action (fun _ => False) :=
  ⟨keeps, fun _ => nofun, fun _ => settled⟩

theorem Rests.evaluate_bind (bare : context.Bare) (e : Expr) {next : Value → Rendering String}
    {meets : Value → String → Prop} (h : ∀ value, Rests setting place context n (next value) (meets value)) :
    Rests setting place context n (evaluate setting (.within setting n) place e >>= next) (fun name =>
      match eval setting (.within setting 0) place.calls context e with
      | .error _ => False
      | .ok value => meets value name) := by
  have same : eval setting (.within setting n) place.calls context e =
      eval setting (.within setting 0) place.calls context e := bare.eval_eq _ _ e
  have settled : Settled (eval setting (.within setting 0) place.calls context e) := bare.settled_eval e
  have step : (evaluate setting (.within setting n) place e >>= next) context =
      ExceptT.bindCont next (eval setting (.within setting 0) place.calls context e) context := by
    rw [← same]
    rfl
  cases result : eval setting (.within setting 0) place.calls context e with
  | error cause =>
    rw [result] at step settled
    refine .of_settled (congrArg Prod.snd step) ?_
    rw [step]
    exact .error fun same => settled (congrArg Except.error same)
  | ok value =>
    rw [result] at step
    exact ⟨step ▸ (h value).keeps, step ▸ (h value).settled_iff⟩

/-- A node that settles has a text exactly if it has one within any number of jumps. -/
theorem finishes_iff {node : Node}
    (settled : Settled (renderNode setting (.within setting n) place node context).1) :
    Finishes setting place context node ↔
      ∃ text, (renderNode setting (.within setting n) place node context).1 = .ok text := by
  refine ⟨fun ⟨m, text, shows⟩ => ⟨text, ?_⟩, fun ⟨text, shows⟩ => ⟨n, text, shows⟩⟩
  have less {a b : Nat} (le : a ≤ b) :
      Rendering.Approximates (renderNode setting (.within setting a) place node)
        (renderNode setting (.within setting b) place node) :=
    approximates_renderNode (approximate_within setting le) place node
  rcases Nat.le_total n m with le | le
  · rcases less le context with unsettled | same
    · exact absurd unsettled settled
    · rw [same, shows]
  · rcases less le context with unsettled | same
    · rw [shows] at unsettled
      cases unsettled
    · rw [← same, shows]

theorem run_map {α β : Type} (action : Rendering α) (f : α → β) (context : Context) :
    (do return f (← action) : Rendering β) context = ((action context).1.map f, (action context).2) := by
  have step (next : α → Rendering β) :
      (action >>= next) context = ExceptT.bindCont next (action context).1 (action context).2 := rfl
  rw [step]
  cases (action context).1 with
  | error cause => rfl
  | ok value => rfl

theorem Rests.seq {node : Node} {rest : Rendering String} {meets later : String → Prop}
    (h : Rests setting place context n (renderNode setting (.within setting n) place node) meets)
    (hr : Rests setting place context n rest later) : Rests setting place context n
      (do let text ← renderNode setting (.within setting n) place node; return text ++ (← rest))
      (fun name => meets name ∨ Finishes setting place context node ∧ later name) := by
  have step : (do let text ← renderNode setting (.within setting n) place node; return text ++ (← rest) :
      Rendering String) context = ExceptT.bindCont (fun text => return text ++ (← rest))
        (renderNode setting (.within setting n) place node context).1
        (renderNode setting (.within setting n) place node context).2 := rfl
  rw [h.keeps] at step
  cases result : (renderNode setting (.within setting n) place node context).1 with
  | error cause =>
    rw [result] at step
    refine ⟨congrArg Prod.snd step, ?_⟩
    have settled := h.settled_iff
    rw [result] at settled
    rw [step]
    refine settled.trans ⟨fun all name body m found => ?_, fun all name body m => all (.inl m)⟩
    rcases m with m | ⟨finishes, -⟩
    · exact all m found
    · obtain ⟨text, shows⟩ := (finishes_iff (by rw [result]; exact settled.2 all)).1 finishes
      rw [result] at shows
      cases shows
  | ok text =>
    have met := h.settled_iff.1 (by rw [result]; exact .ok text)
    rw [result] at step
    have later : (do let text ← renderNode setting (.within setting n) place node; return text ++ (← rest) :
        Rendering String) context = ((rest context).1.map (text ++ ·), (rest context).2) := by
      rw [step]
      exact run_map rest (text ++ ·) context
    refine ⟨(congrArg Prod.snd later).trans hr.keeps, ?_⟩
    rw [later, Settled.map_iff]
    refine hr.settled_iff.trans ⟨fun all name body m found => ?_, fun all name body m => ?_⟩
    · rcases m with m | ⟨-, m⟩
      · exact met m found
      · exact all m found
    · exact all (.inr ⟨⟨n, text, result⟩, m⟩)

section Nodes

set_option linter.unusedSectionVars false

variable (bare : context.Bare)
variable (kept : ∀ ⦃name body⦄, place.overrides.lookup name = some body →
  ((Jumps.within setting n).body place body context).2 = context)
include bare kept

mutual

theorem rests_renderNode : ∀ {node : Node}, AllLayout node.parts →
    Rests setting place context n (renderNode setting (.within setting n) place node)
      (fun name => Meets setting place context name node)
  | .text content, _ => .of_settled rfl (.ok content)
  | .extend parent, _ => .of_settled rfl (.ok "")
  | .output e, _ => by
    have run := run_map (evaluate setting (.within setting n) place e) Value.text context
    refine .of_settled (congrArg Prod.snd run) ?_
    rw [renderNode, run]
    exact (Settled.map_iff _).2 (bare.settled_eval e)
  | .branch arms otherwise, plain => by
    simp only [Node.parts, Node.allLayout_cons, Node.allLayout_append] at plain
    rw [renderNode]
    exact rests_renderArms plain.2.1 (rests_renderOption plain.2.2)
  | .block name body, plain => by
    simp only [Node.parts, Node.allLayout_cons] at plain
    rw [renderNode]
    simp only [Meets]
    cases replaced : place.overrides.lookup name with
    | some replacement =>
      refine ⟨kept replaced, fun settled other body same found => ?_, fun all => all rfl replaced⟩
      simp only [Option.isSome_some, if_true] at same
      rw [← same, replaced] at found
      exact Option.some.inj found ▸ settled
    | none => exact rests_renderNodes plain.2
  | .inclusion .., plain | .loop .., plain | .assign .., plain | .define .., plain | .callBlock .., plain
  | .filterBlock .., plain | .importAs .., plain | .importFrom .., plain => by
    cases plain _ (Node.self_mem_parts _)

theorem rests_renderNodes : ∀ {nodes : List Node}, AllLayout (partsOfAll nodes) →
    Rests setting place context n (renderNodes setting (.within setting n) place nodes)
      (fun name => MeetsAll setting place context name nodes)
  | [], _ => .of_settled rfl (.ok "")
  | node :: nodes, plain => by
    rw [partsOfAll, Node.allLayout_append] at plain
    exact (rests_renderNode plain.1).seq (rests_renderNodes plain.2)

theorem rests_renderArms : ∀ {arms : List (Expr × List Node)} {otherwise : Rendering String} {meets : String → Prop},
    AllLayout (partsOfArms arms) → Rests setting place context n otherwise meets →
    Rests setting place context n (renderArms setting (.within setting n) place arms otherwise)
      (fun name => MeetsArms setting place context name arms (meets name))
  | [], _, _, _, ho => ho
  | (condition, body) :: arms, otherwise, meets, plain, ho => by
    rw [partsOfArms, Node.allLayout_append] at plain
    refine .evaluate_bind bare condition fun value => ?_
    cases value.isTruthy with
    | true => exact rests_renderNodes plain.1
    | false => exact rests_renderArms plain.2 ho

theorem rests_renderOption : ∀ {body : Option (List Node)}, AllLayout (partsOfOption body) →
    Rests setting place context n (renderOption setting (.within setting n) place body)
      (fun name => MeetsOption setting place context name body)
  | none, _ => .of_settled rfl (.ok "")
  | some body, plain => rests_renderNodes (by rwa [partsOfOption] at plain)

end

end Nodes

end Rests

section Bodies

variable {setting : Setting} {place : Place} {context : Context} (bare : context.Bare)
variable (plain : ∀ ⦃name body⦄, place.overrides.lookup name = some body → AllLayout (partsOfAll body))
include bare plain

theorem keeps_body (n : Nat) : ∀ {nodes : List Node}, AllLayout (partsOfAll nodes) →
    ((Jumps.within setting n).body place nodes context).2 = context := by
  induction n with
  | zero => exact fun _ => rfl
  | succ n ih => exact fun layout => (rests_renderNodes bare (fun _ _ found => ih (plain found)) layout).keeps

/-- One jump more is enough for nodes if each body settles that replaces a block they meet. -/
theorem settled_succ_iff (n : Nat) {nodes : List Node} (layout : AllLayout (partsOfAll nodes)) :
    Settled ((Jumps.within setting (n + 1)).body place nodes context).1 ↔
      ∀ ⦃name body⦄, MeetsAll setting place context name nodes → place.overrides.lookup name = some body →
        Settled ((Jumps.within setting n).body place body context).1 :=
  (rests_renderNodes bare (fun _ _ found => keeps_body bare plain n (plain found)) layout).settled_iff

/-! ### Cycles -/

/-- The body that replaces the block of a name settles within so many jumps, if there is one. -/
def SettlesIn (setting : Setting) (place : Place) (context : Context) (n : Nat) (name : String) : Prop :=
  ∀ ⦃body⦄, place.overrides.lookup name = some body →
    Settled ((Jumps.within setting n).body place body context).1

theorem exists_lt_of_leads {n : Nat} {a b : String} (leads : Leads setting place context a b)
    (settles : SettlesIn setting place context n a) : ∃ m < n, SettlesIn setting place context m b := by
  obtain ⟨body, found, meets⟩ := leads
  cases n with
  | zero => exact absurd rfl (settles found)
  | succ n =>
    exact ⟨n, Nat.lt_succ_self n, fun other => (settled_succ_iff bare plain n (plain found)).1 (settles found) meets⟩

theorem exists_le_of_reflTransGen {a b : String} (leads : ReflTransGen (Leads setting place context) a b) :
    ∀ {n}, SettlesIn setting place context n a → ∃ m ≤ n, SettlesIn setting place context m b := by
  induction leads with
  | refl => exact fun settles => ⟨_, Nat.le_refl _, settles⟩
  | tail _ last ih =>
    intro n settles
    obtain ⟨m, le, settles⟩ := ih settles
    obtain ⟨k, lt, settles⟩ := exists_lt_of_leads bare plain last settles
    exact ⟨k, by omega, settles⟩

/-- What leads back to itself would settle within ever fewer jumps. -/
theorem not_settlesIn_of_transGen {a : String} (cycle : TransGen (Leads setting place context) a a) (n : Nat) :
    ¬ SettlesIn setting place context n a := by
  induction n using Nat.strongRecOn with
  | ind n ih =>
    intro settles
    obtain ⟨b, first, rest⟩ := TransGen.head'_iff.1 cycle
    obtain ⟨m, lt, settles⟩ := exists_lt_of_leads bare plain first settles
    obtain ⟨k, le, settles⟩ := exists_le_of_reflTransGen bare plain rest settles
    exact ih k (by omega) settles

/-- A layout settles within some number of jumps exactly if nothing that it comes to leads back to itself. -/
theorem exists_settled_iff {nodes : List Node} (layout : AllLayout (partsOfAll nodes)) :
    (∃ n, Settled ((Jumps.within setting n).body place nodes context).1) ↔ ¬ Recurs setting place context nodes := by
  constructor
  · rintro ⟨n, settled⟩ ⟨first, name, meets, reach, cycle⟩
    cases n with
    | zero => exact settled rfl
    | succ n =>
      have settles : SettlesIn setting place context n first :=
        fun body => (settled_succ_iff bare plain n layout).1 settled meets
      obtain ⟨m, -, settles⟩ := exists_le_of_reflTransGen bare plain reach settles
      exact not_settlesIn_of_transGen bare plain cycle m settles
  · intro clear
    have clear : ¬ RecursIn (place.overrides.lookup ·) (fun nodes name => MeetsAll setting place context name nodes) nodes :=
      clear
    have settles (n : Nat) (nodes : List Node) (inside : ∀ ⦃name body⦄, MeetsAll setting place context name nodes →
        place.overrides.lookup name = some body → AllLayout (partsOfAll body) →
        Settled ((Jumps.within setting n).body place body context).1) (layout : AllLayout (partsOfAll nodes)) :
        Settled ((Jumps.within setting (n + 1)).body place nodes context).1 :=
      (settled_succ_iff bare plain n layout).2 fun name body meets found => inside meets found (plain found)
    exact ⟨_, induction_of_acyclic settles mem_keys_of_lookup clear (Nat.lt_succ_self _) layout⟩

end Bodies

/-! ### Layouts -/

/-- The outermost parent of a document, with the bodies that the documents on the way there give to its blocks. -/
def laidOut (setting : Setting) (context : Context) (start : String) (allowed : Nat) (place : Place)
    (nodes : List Node) : Except RenderError (Place × List Node) :=
  match parent? nodes with
  | none => .ok (place, nodes)
  | some e => do
    let name ← eval setting (.within setting 0) place.calls context e
    let parent ← require setting name.text
    match allowed with
    | 0 => throw (.parentsTooDeep start)
    | allowed + 1 =>
      laidOut setting context start allowed ⟨place.overrides ++ blocksIn nodes, place.depth + 1, place.calls⟩
        parent.nodes

/-- The outermost layout of a template for a namespace. -/
def layout (setting : Setting) (template : Template) (globals : Namespace) : Except RenderError (Place × List Node) :=
  laidOut setting (.ofNamespace globals) template.name maxNesting ⟨[], 0, 0⟩ template.nodes

/-- The templates that can be reached lay out blocks, and none of them is a matter of jumps. -/
structure Setting.IsLayout (setting : Setting) : Prop where
  nodes : ∀ ⦃name template⦄, setting.template? name = .ok (some template) → AllLayout (partsOfAll template.nodes)
  settled : ∀ name, Settled (setting.template? name)

section Layouts

variable {setting : Setting} {context : Context} (bare : context.Bare)
include bare

theorem layOut_eq (jumps : Jumps) (start : String) (allowed : Nat) (place : Place) (nodes : List Node) :
    layOut setting jumps start allowed place nodes context =
      match laidOut setting context start allowed place nodes with
      | .error cause => (.error cause, context)
      | .ok (place, nodes) => jumps.body place nodes context := by
  rw [layOut.eq_def, laidOut.eq_def]
  cases parent? nodes with
  | none => rfl
  | some e =>
    have step (next : Value → Rendering String) : (evaluate setting jumps place e >>= next) context =
        ExceptT.bindCont next (eval setting (.within setting 0) place.calls context e) context := by
      rw [← bare.eval_eq jumps (.within setting 0) e]
      rfl
    simp only [step]
    cases eval setting (.within setting 0) place.calls context e with
    | error cause => rfl
    | ok name =>
      simp only [bind, Except.bind, ExceptT.bindCont]
      cases require setting name.text with
      | error cause => rfl
      | ok parent =>
        cases allowed with
        | zero => rfl
        | succ allowed => exact layOut_eq jumps start allowed _ _
termination_by allowed

theorem settled_laidOut (settled : ∀ name, Settled (setting.template? name)) (start : String) (allowed : Nat)
    (place : Place) (nodes : List Node) : Settled (laidOut setting context start allowed place nodes) := by
  rw [laidOut.eq_def]
  cases parent? nodes with
  | none => exact .ok _
  | some e =>
    refine (bare.settled_eval e).bind fun name => (settled_require settled name.text).bind fun parent => ?_
    cases allowed with
    | zero => exact .error nofun
    | succ allowed => exact settled_laidOut settled start allowed _ _
termination_by allowed

end Layouts

theorem allLayout_of_laidOut {setting : Setting} (lays : setting.IsLayout) {context : Context} {start : String}
    {allowed : Nat} {place outer : Place} {nodes outermost : List Node} (layout : AllLayout (partsOfAll nodes))
    (plain : ∀ entry ∈ place.overrides, AllLayout (partsOfAll entry.2))
    (h : laidOut setting context start allowed place nodes = .ok (outer, outermost)) :
    AllLayout (partsOfAll outermost) ∧ ∀ entry ∈ outer.overrides, AllLayout (partsOfAll entry.2) := by
  rw [laidOut.eq_def] at h
  cases parent : parent? nodes with
  | none =>
    rw [parent] at h
    cases h
    exact ⟨layout, plain⟩
  | some e =>
    rw [parent] at h
    obtain ⟨name, -, h⟩ := Expr.bind_eq_ok h
    obtain ⟨next, found, h⟩ := Expr.bind_eq_ok h
    cases allowed with
    | zero => cases h
    | succ allowed =>
      refine allLayout_of_laidOut lays (lays.nodes (template?_of_require found)) (fun entry m => ?_) h
      rcases List.mem_append.1 m with m | m
      · exact plain entry m
      · exact fun part inside => layout part (partsOf_blocks_subset m inside)
termination_by allowed

/-- Rendering ends exactly if no block of the outermost layout leads, from one replaced body to the next, to one that
leads back to itself. -/
theorem ends_iff_not_recurs {setting : Setting} (lays : setting.IsLayout) {template : Template}
    (plain : AllLayout (partsOfAll template.nodes)) (globals : Namespace) : Ends setting template globals ↔
      ∀ place nodes, template.layout setting globals = .ok (place, nodes) →
        ¬ Recurs setting place (.ofNamespace globals) nodes := by
  have bare : (Context.ofNamespace globals).Bare := rfl
  have text (n : Nat) : renderWithin setting n template globals = _ :=
    congrArg Prod.fst (layOut_eq bare (.within setting n) template.name maxNesting ⟨[], 0, 0⟩ template.nodes)
  have settled := settled_laidOut bare lays.settled template.name maxNesting ⟨[], 0, 0⟩ template.nodes
  rw [ends_iff]
  simp only [text, layout]
  cases laid : laidOut setting (.ofNamespace globals) template.name maxNesting ⟨[], 0, 0⟩ template.nodes with
  | error cause =>
    rw [laid] at settled
    exact ⟨fun _ => nofun, fun _ => ⟨0, .error fun same => settled (congrArg Except.error same)⟩⟩
  | ok outer =>
    obtain ⟨place, nodes⟩ := outer
    obtain ⟨layout, bodies⟩ := allLayout_of_laidOut lays plain (fun _ m => absurd m List.not_mem_nil) laid
    have plain ⦃name body⦄ (found : place.overrides.lookup name = some body) : AllLayout (partsOfAll body) := by
      obtain ⟨before, after, split, -⟩ := List.lookup_eq_some_iff.1 found
      exact bodies (name, body) (by simp [split])
    refine (exists_settled_iff bare plain layout).trans ⟨fun clear _ _ same => ?_, fun clear => clear _ _ rfl⟩
    cases same
    exact clear

/-- The nodes start with a block of a name. -/
def startsWithBlock (name : String) : List Node → Bool
  | .block block _ :: _ => block = name
  | _ => false

theorem meetsAll_of_startsWithBlock {setting : Setting} {place : Place} {context : Context} {name : String}
    {nodes : List Node} (starts : startsWithBlock name nodes) (replaced : (place.overrides.lookup name).isSome) :
    MeetsAll setting place context name nodes := by
  rw [startsWithBlock.eq_def] at starts
  split at starts
  · rename_i block body rest
    obtain rfl := of_decide_eq_true starts
    exact .inl (by rw [Meets, if_pos replaced])
  · cases starts

/-- A block whose body starts with a block of its own name leads back to itself. -/
theorem recurs_of_startsWithBlock {setting : Setting} {place : Place} (context : Context) {name : String}
    {nodes : List Node} (starts : startsWithBlock name nodes)
    (nested : (place.overrides.lookup name).any (startsWithBlock name)) : Recurs setting place context nodes := by
  obtain ⟨body, found, again⟩ := (Option.any_eq_true _ _).1 nested
  have replaced : (place.overrides.lookup name).isSome := by rw [found]; rfl
  exact ⟨name, name, meetsAll_of_startsWithBlock starts replaced, .refl,
    .single ⟨body, found, meetsAll_of_startsWithBlock again replaced⟩⟩

end Template

namespace Library

variable {library : Library}

/-- Every template of the library lays out blocks. -/
def IsLayout (library : Library) : Prop :=
  ∀ entry ∈ library.templates, AllLayout (partsOfAll entry.2.nodes)

instance (library : Library) : Decidable library.IsLayout :=
  inferInstanceAs (Decidable (∀ entry ∈ library.templates, AllLayout (partsOfAll entry.2.nodes)))

theorem IsLayout.setting (lays : library.IsLayout) : library.setting.IsLayout where
  nodes _ _ found := lays _ (mem_templates_of_get? (get?_of_template? found))
  settled := settled_template? library

/-- In a library of texts, outputs, branches, blocks and parents, rendering a template ends exactly if no block of its
outermost layout leads, from one replaced body to the next, to one that leads back to itself. -/
theorem ends_iff_of_isLayout (lays : library.IsLayout) {name : String} {template : Template}
    (found : library.get? name = some template) (globals : Namespace) :
    Ends library.setting template globals ↔
      ∀ place nodes, template.layout library.setting globals = .ok (place, nodes) →
        ¬ Recurs library.setting place (.ofNamespace globals) nodes :=
  ends_iff_not_recurs lays.setting (lays _ (mem_templates_of_get? found)) globals

/-- The body that replaces the first block shows the second one, which is replaced as well. -/
theorem ends_of_nested_blocks :
    let texts := [("base", "\x7b% block a %\x7d\x7b% endblock %\x7d\x7b% block b %\x7d\x7b% endblock %\x7d"),
      ("page", "\x7b% extends 'base' %\x7d\x7b% block a %\x7d\x7b% block b %\x7dy\x7b% endblock %\x7d\x7b% endblock %\x7d")]
    ∃ library template, ofList texts = .ok library ∧ library.IsLayout ∧ library.get? "page" = some template ∧
      library.render "page" .empty = .ok "yy" ∧
      ∀ place nodes, template.layout library.setting .empty = .ok (place, nodes) →
        ¬ Recurs library.setting place (.ofNamespace .empty) nodes := by
  intro texts
  have shown : (ofList texts).toOption.bind (fun library => (library.get? "page").map fun template =>
      (decide library.IsLayout, library.render "page" .empty, renderWithin library.setting 5 template .empty)) =
      some (true, .ok "yy", .ok "yy") := by
    rw [ofList_eq_ofChars (.cons rfl (.cons rfl .nil))]
    decide +kernel
  cases made : ofList texts with
  | error error => rw [made] at shown; cases shown
  | ok library =>
    rw [made] at shown
    obtain ⟨template, found, shown⟩ := Option.map_eq_some_iff.1 shown
    simp only [Prod.mk.injEq, decide_eq_true_eq] at shown
    obtain ⟨lays, text, within⟩ := shown
    refine ⟨library, template, rfl, lays, found, text, (ends_iff_of_isLayout lays found .empty).1 (ends_iff.2 ⟨5, ?_⟩)⟩
    rw [within]
    exact .ok _

/-- A block inside a block of the same name, both of which replace a block of the parent. -/
theorem unsettled_of_nested_block :
    let texts := [("base", "\x7b% block a %\x7d\x7b% endblock %\x7d"),
      ("page", "\x7b% extends 'base' %\x7d\x7b% block a %\x7d\x7b% block a %\x7dx\x7b% endblock %\x7d\x7b% endblock %\x7d")]
    ∃ library template, ofList texts = .ok library ∧ library.IsLayout ∧ library.get? "page" = some template ∧
      ∀ budget, renderWithin library.setting budget template .empty = .error .unsettled := by
  intro texts
  have shown : (ofList texts).toOption.bind (fun library => (library.get? "page").map fun template =>
      (decide library.IsLayout, (template.layout library.setting .empty).toOption.map fun (place, nodes) =>
        (startsWithBlock "a" nodes, (place.overrides.lookup "a").any (startsWithBlock "a")))) =
      some (true, some (true, true)) := by
    rw [ofList_eq_ofChars (.cons rfl (.cons rfl .nil))]
    decide +kernel
  cases made : ofList texts with
  | error error => rw [made] at shown; cases shown
  | ok library =>
    rw [made] at shown
    obtain ⟨template, found, shown⟩ := Option.map_eq_some_iff.1 shown
    simp only [Prod.mk.injEq, decide_eq_true_eq] at shown
    obtain ⟨lays, blocks⟩ := shown
    obtain ⟨⟨place, nodes⟩, laid, blocks⟩ := Option.map_eq_some_iff.1 blocks
    rw [Prod.mk.injEq] at blocks
    have laid : template.layout library.setting .empty = .ok (place, nodes) := by
      cases h : template.layout library.setting .empty with
      | error cause => rw [h] at laid; cases laid
      | ok outer => rw [h] at laid; cases laid; rfl
    have endless : ¬ Ends library.setting template .empty := fun ends =>
      (ends_iff_not_recurs lays.setting (lays _ (mem_templates_of_get? found)) .empty).1 ends place nodes laid
        (recurs_of_startsWithBlock _ blocks.1 blocks.2)
    refine ⟨library, template, rfl, lays, found, fun budget => ?_⟩
    by_contra settled
    exact endless (ends_iff.2 ⟨budget, settled⟩)

end Library

end Folio
