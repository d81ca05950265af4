import Folio.Proofs.Analysis.Visit

/-! More bound names. What is known of an expression is known in the same way where more names are bound, or it is not
known there any more. So a branch that was not decided and has let its names out takes no node from the analysis: what
is walked under fewer names is walked under more. -/
namespace Folio

/-! ### Less definite truth -/

namespace Truth

/-- The truth is the other one as far as it is known. -/
def Blurs (t s : Truth) : Prop :=
  t = s ∨ t = .unknown

variable {s t s' t' : Truth}

theorem Blurs.not (h : t.Blurs s) : t.not.Blurs s.not := by
  rcases h with rfl | rfl
  · exact .inl rfl
  · exact .inr rfl

/-- An operand that is not known any more leaves what the other one decides, and takes the rest. -/
theorem Blurs.and (h : t.Blurs s) (h' : t'.Blurs s') : (t.and t').Blurs (s.and s') := by
  rcases h with rfl | rfl <;> rcases h' with rfl | rfl
  · exact .inl rfl
  · cases t <;> cases s' <;> simp [Blurs, Truth.and]
  · cases s <;> cases t' <;> simp [Blurs, Truth.and]
  · exact .inr rfl

theorem Blurs.or (h : t.Blurs s) (h' : t'.Blurs s') : (t.or t').Blurs (s.or s') := by
  rcases h with rfl | rfl <;> rcases h' with rfl | rfl
  · exact .inl rfl
  · cases t <;> cases s' <;> simp [Blurs, Truth.or]
  · cases s <;> cases t' <;> simp [Blurs, Truth.or]
  · exact .inr rfl

theorem Blurs.known? (h : t.Blurs s) : t.known? = s.known? ∨ t.known? = none := by
  rcases h with rfl | rfl
  · exact .inl rfl
  · exact .inr rfl

theorem blurs_ofKnown {v w : Option Value} (h : v = w ∨ v = none) : (ofKnown v).Blurs (ofKnown w) := by
  rcases h with rfl | rfl
  · exact .inl rfl
  · exact .inr rfl

end Truth

variable {ns : Namespace} {locals more : List String}

/-! ### Expressions -/

namespace Expr

theorem isLocal_of_subset {e : Expr} (sub : locals ⊆ more) (h : e.isLocal locals) : e.isLocal more := by
  rw [isLocal, Option.any_eq_true] at h ⊢
  obtain ⟨root, hr, bound⟩ := h
  exact ⟨root, hr, List.contains_iff_mem.2 (sub (List.contains_iff_mem.1 bound))⟩

theorem isLocal_eq_or (sub : locals ⊆ more) (e : Expr) : e.isLocal more = true ∨ e.isLocal more = e.isLocal locals := by
  cases bound : e.isLocal more with
  | true => exact .inl rfl
  | false => exact .inr (Bool.eq_false_iff.2 fun h => Bool.eq_false_iff.1 bound (isLocal_of_subset sub h)).symm

/-- What is known where more names are bound is known where fewer are. -/
theorem known?_of_subset (ns : Namespace) (sub : locals ⊆ more) : ∀ e : Expr,
    e.known? ns more = e.known? ns locals ∨ e.known? ns more = none
  | .var name => by
    rw [known?, known?]
    by_cases bound : name ∈ more
    · exact .inr (if_pos (List.contains_iff_mem.2 bound))
    · have free : name ∉ locals := fun m => bound (sub m)
      simp [bound, free]
  | .lookup base key => by
    rw [known?, known?]
    rcases isLocal_eq_or sub base with bound | same
    · exact .inr (if_pos bound)
    · rw [same]
      cases (Expr.lookup base key).path? with
      | some path => exact .inl rfl
      | none =>
        rcases known?_of_subset ns sub base with hb | hb <;> rcases known?_of_subset ns sub key with hk | hk
        · exact .inl (by rw [hb, hk])
        · refine .inr ?_
          rw [hk]
          cases base.known? ns more <;> simp
        all_goals
          refine .inr ?_
          rw [hb]
          simp
  | .and left right => by
    rw [known?, known?]
    exact ((Truth.blurs_ofKnown (known?_of_subset ns sub left)).and
      (Truth.blurs_ofKnown (known?_of_subset ns sub right))).known?
  | .or left right => by
    rw [known?, known?]
    exact ((Truth.blurs_ofKnown (known?_of_subset ns sub left)).or
      (Truth.blurs_ofKnown (known?_of_subset ns sub right))).known?
  | .not inner => by
    rw [known?, known?]
    exact (Truth.blurs_ofKnown (known?_of_subset ns sub inner)).not.known?
  | .isDefined target => by
    rw [known?, known?]
    rcases isLocal_eq_or sub target with bound | same
    · exact .inr (if_pos bound)
    · rw [same]
      cases target.path? with
      | some path => exact .inl rfl
      | none =>
        rcases known?_of_subset ns sub target with ht | ht
        · exact .inl (by rw [ht])
        · exact .inr (by rw [ht]; simp)
  | .literal _ | .filter .. | .compare .. | .binary .. | .neg _ | .call .. | .test .. | .list _ | .dict _
  | .inlineIf .. => .inl rfl

theorem truth_of_subset (ns : Namespace) (sub : locals ⊆ more) (e : Expr) : (e.truth ns more).Blurs (e.truth ns locals) :=
  Truth.blurs_ofKnown (e.known?_of_subset ns sub)

theorem knownText?_of_subset (ns : Namespace) (sub : locals ⊆ more) (e : Expr) :
    e.knownText? ns more = e.knownText? ns locals ∨ e.knownText? ns more = none := by
  rw [knownText?, knownText?]
  rcases e.known?_of_subset ns sub with same | unknown
  · exact .inl (by rw [same])
  · exact .inr (by rw [unknown])

end Expr

/-! ### Nodes -/

namespace Node

mutual

/-- Where more names are bound before a node, more are bound behind it. -/
theorem walk_mono : ∀ (node : Node) {locals more : List String}, locals ⊆ more →
    (node.walk ns locals).2 ⊆ (node.walk ns more).2
  | .text _, _, _, sub | .output _, _, _, sub | .loop .., _, _, sub | .callBlock .., _, _, sub
  | .filterBlock .., _, _, sub | .extend _, _, _, sub => sub
  | .define .., _, _, sub | .assign .., _, _, sub | .importAs .., _, _, sub | .importFrom .., _, _, sub =>
    List.append_subset.2 ⟨List.subset_append_of_subset_left _ sub, List.subset_append_right _ _⟩
  | .inclusion .., _, _, sub => by
    rw [walk_inclusion, walk_inclusion]
    exact sub
  | .block _ body, _, _, sub => walkAll_mono body sub
  | .branch arms otherwise, _, _, sub =>
    walkArms_mono arms (subset_walkOption ns otherwise) (fun sub => walkOption_mono otherwise sub) sub

theorem walkAll_mono : ∀ (nodes : List Node) {locals more : List String}, locals ⊆ more →
    (walkAll ns locals nodes).2 ⊆ (walkAll ns more nodes).2
  | [], _, _, sub => sub
  | node :: nodes, _, _, sub => walkAll_mono nodes (walk_mono node sub)

theorem walkArms_mono : ∀ (arms : List (Expr × List Node)) {otherwise : List String → Findings × List String},
    (∀ locals, locals ⊆ (otherwise locals).2) →
    (∀ {locals more}, locals ⊆ more → (otherwise locals).2 ⊆ (otherwise more).2) →
    ∀ {locals more : List String}, locals ⊆ more →
      (walkArms ns locals arms otherwise).2 ⊆ (walkArms ns more arms otherwise).2
  | [], _, _, mono, _, _, sub => mono sub
  | (condition, body) :: arms, otherwise, grows, mono, locals, more, sub => by
    have here := walkAll_mono body sub
    rw [walkArms, walkArms]
    rcases condition.truth_of_subset ns sub with same | unknown
    · rw [same]
      cases condition.truth ns locals with
      | true => exact here
      | false => exact walkArms_mono arms grows mono sub
      | unknown => exact walkArms_mono arms grows mono here
    · rw [unknown]
      cases condition.truth ns locals with
      | true => exact List.Subset.trans here (subset_walkArms ns arms grows _)
      | false => exact walkArms_mono arms grows mono (List.Subset.trans sub (subset_walkAll ns body more))
      | unknown => exact walkArms_mono arms grows mono here

theorem walkOption_mono : ∀ (body : Option (List Node)) {locals more : List String}, locals ⊆ more →
    (walkOption ns locals body).2 ⊆ (walkOption ns more body).2
  | none, _, _, sub => sub
  | some body, _, _, sub => walkAll_mono body sub

end

/-- An arm that is walked under fewer names is walked under more. -/
theorem localsOfArm_of_subset {arms : List (Expr × List Node)} {i : Nat} {inner : List String} (sub : locals ⊆ more)
    (h : localsOfArm ns locals arms i = some inner) :
    ∃ wider, localsOfArm ns more arms i = some wider ∧ inner ⊆ wider := by
  induction arms generalizing i locals more with
  | nil =>
    cases i with
    | zero => cases h; exact ⟨more, rfl, sub⟩
    | succ i => cases h
  | cons arm arms ih =>
    obtain ⟨condition, body⟩ := arm
    have blurs := condition.truth_of_subset ns sub
    cases i with
    | zero =>
      cases ht : condition.truth ns locals with
      | false => simp [localsOfArm, ht] at h
      | true | unknown =>
        have first : localsOfArm ns locals ((condition, body) :: arms) 0 = some locals := by simp [localsOfArm, ht]
        cases first.symm.trans h
        refine ⟨more, ?_, sub⟩
        rcases blurs with same | unknown <;> simp [localsOfArm, *]
    | succ i =>
      cases ht : condition.truth ns locals with
      | true => simp [localsOfArm, ht] at h
      | false =>
        have h : localsOfArm ns locals arms i = some inner := by simpa [localsOfArm, ht] using h
        rcases blurs with same | unknown
        · simpa [localsOfArm, same, ht] using ih sub h
        · simpa [localsOfArm, unknown] using ih (List.Subset.trans sub (subset_walkAll ns body more)) h
      | unknown =>
        have h : localsOfArm ns (walkAll ns locals body).2 arms i = some inner := by simpa [localsOfArm, ht] using h
        have unknown : condition.truth ns more = .unknown := by simpa [Truth.Blurs, ht] using blurs
        simpa [localsOfArm, unknown] using ih (walkAll_mono body sub) h

theorem localsOfBody_of_subset {node : Node} {i : Nat} {inner : List String} (sub : locals ⊆ more)
    (h : node.localsOfBody ns locals i = some inner) :
    ∃ wider, node.localsOfBody ns more i = some wider ∧ inner ⊆ wider := by
  have statement (bodies : List (List String × List Node))
      (h : bodies[i]?.map (fun entry => locals ++ entry.1) = some inner) :
      ∃ wider, bodies[i]?.map (fun entry => more ++ entry.1) = some wider ∧ inner ⊆ wider := by
    obtain ⟨body, stands, rfl⟩ := Option.map_eq_some_iff.1 h
    refine ⟨more ++ body.1, by rw [stands]; rfl, ?_⟩
    exact List.append_subset.2 ⟨List.subset_append_of_subset_left _ sub, List.subset_append_right _ _⟩
  cases node with
  | branch arms otherwise => exact localsOfArm_of_subset sub h
  | block name body =>
    cases h
    exact ⟨more, rfl, sub⟩
  | loop | define | callBlock | filterBlock => exact statement (bodies _) h
  | _ => cases h

/-- The analysis walks a node under more names if it does so under fewer. -/
theorem localsAt_of_subset {address : Address} {nodes : List Node} {inner : List String} (sub : locals ⊆ more)
    (h : localsAt ns address locals nodes = some inner) :
    ∃ wider, localsAt ns address more nodes = some wider ∧ inner ⊆ wider := by
  induction address generalizing locals more nodes with
  | here =>
    cases nodes with
    | nil => cases h
    | cons node nodes =>
      cases h
      exact ⟨more, rfl, sub⟩
  | next rest ih =>
    cases nodes with
    | nil => cases h
    | cons node nodes => exact ih (walk_mono node sub) h
  | inside i rest ih =>
    cases nodes with
    | nil => cases h
    | cons node nodes =>
      obtain ⟨entered, hb, h⟩ := Option.bind_eq_some_iff.1 h
      obtain ⟨body, stands, h⟩ := Option.bind_eq_some_iff.1 h
      obtain ⟨wide, hw, sub⟩ := localsOfBody_of_subset sub hb
      obtain ⟨wider, visit, sub⟩ := ih sub h
      exact ⟨wider, by rw [localsAt, hw, stands]; exact visit, sub⟩

end Node

/-- Under more names the truth of an expression and the text of an expression are known as they are under fewer, or
they are not known. So every node that the analysis walks under fewer names it walks under more. -/
theorem cautious_of_subset (ns : Namespace) (sub : locals ⊆ more) :
    (∀ e : Expr, (e.truth ns more = e.truth ns locals ∨ e.truth ns more = .unknown) ∧
      (e.knownText? ns more = e.knownText? ns locals ∨ e.knownText? ns more = none)) ∧
    ∀ (nodes : List Node) (address : Address) (inner : List String),
      Node.localsAt ns address locals nodes = some inner →
        ∃ wider, Node.localsAt ns address more nodes = some wider ∧ inner ⊆ wider :=
  ⟨fun e => ⟨e.truth_of_subset ns sub, e.knownText?_of_subset ns sub⟩, fun _ _ _ => Node.localsAt_of_subset sub⟩

/-- Where `flag` is bound, `item or flag` is not known to hold any more, and what stands behind it is walked. -/
theorem cautious_of_leaked_name :
    let ns : Namespace := .ofList [("flag", .bool true), ("page", .string "a")]
    let condition : Expr := .or (.var "item") (.var "flag")
    let nodes : List Node := [.branch [(condition, [.output (.var "a")])] (some [.output (.var "b")])]
    ["item"] ⊆ ["flag", "item"] ∧
      condition.truth ns ["item"] = .true ∧ condition.truth ns ["flag", "item"] = .unknown ∧
      ((Expr.var "page").knownText? ns ["item"] = some "a") ∧
      Node.localsAt ns (.inside 0 .here) ["item"] nodes = some ["item"] ∧
      Node.localsAt ns (.inside 1 .here) ["item"] nodes = none ∧
      Node.localsAt ns (.inside 1 .here) ["flag", "item"] nodes = some ["flag", "item"] ∧
      (condition.truth ns ["flag", "item"] = .true ∨ condition.truth ns ["flag", "item"] = .unknown) ∧
      ∃ wider, Node.localsAt ns (.inside 0 .here) ["flag", "item"] nodes = some wider ∧ ["item"] ⊆ wider := by
  intro ns condition nodes
  have sub : ["item"] ⊆ ["flag", "item"] := by simp
  have known : condition.truth ns ["item"] = .true := by decide +kernel
  obtain ⟨expressions, visits⟩ := cautious_of_subset ns sub
  have visit : Node.localsAt ns (.inside 0 .here) ["item"] nodes = some ["item"] := by decide +kernel
  exact ⟨sub, known, by decide +kernel, by decide +kernel, visit, by decide +kernel, by decide +kernel,
    known ▸ (expressions condition).1, visits nodes _ _ visit⟩

end Folio
