import Folio.Proofs.Analysis.Coverage
import Folio.Proofs.Analysis.DepthFirst

/-! What a survey comes to. A search that comes to its end has visited every name it came to in one of the inclusions
of that name, and reports what these visits found and nothing else. -/
namespace Folio.Survey

section Reachable

variable (ns : Namespace) (loader : Loader)

/-- What the visit of an inclusion finds: the entry of one that cannot be loaded, or what the template has under the
names that the inclusion carries. -/
def visit (inclusion : Inclusion) : Findings :=
  match loader.load inclusion.name with
  | .error _ => ⟨[missingInclusion inclusion.name], []⟩
  | .ok none => ⟨if inclusion.ignoreMissing then [] else [missingInclusion inclusion.name], []⟩
  | .ok (some text) =>
    match Template.parse text with
    | .error _ => .none
    | .ok nodes => (Node.walkAll ns inclusion.locals nodes).1

/-- The inclusions that a search comes to from the first ones. -/
inductive Reachable (first : List Inclusion) : Inclusion → Prop
  | first {inclusion : Inclusion} (m : inclusion ∈ first) : Reachable first inclusion
  | inside {outer inclusion : Inclusion} {text : String} {nodes : List Node} (reached : Reachable first outer)
      (load : loader.load outer.name = .ok (some text)) (parse : Template.parse text = .ok nodes)
      (m : inclusion ∈ (Node.walkAll ns outer.locals nodes).1.inclusions) : Reachable first inclusion

/-- A search from the first inclusions can find the entry, in one that it comes to. -/
def Findable (first : List Inclusion) (entry : String) : Prop :=
  ∃ inclusion, Reachable ns loader first inclusion ∧ entry ∈ (visit ns loader inclusion).missing

/-- What a visit of the inclusion finds was found, and the names it comes to were requested. -/
def Explored (requested found : List String) (inclusion : Inclusion) : Prop :=
  (visit ns loader inclusion).missing ⊆ found ∧ (visit ns loader inclusion).names ⊆ requested

/-- What a search that comes to its end has done: it has requested the names that waited, has visited every name that it
requested in an inclusion that it came to, and has found nothing but what it can find. -/
structure Complete (first waiting : List Inclusion) (requested found asked all : List String) : Prop where
  sound : ∀ entry ∈ all, entry ∈ found ∨ Findable ns loader first entry
  found : found ⊆ all
  waiting : waiting.map (·.name) ⊆ asked
  explored : ∀ name ∈ asked, name ∈ requested ∨
    ∃ inclusion, Reachable ns loader first inclusion ∧ inclusion.name = name ∧ Explored ns loader asked all inclusion

end Reachable

variable {ns : Namespace} {loader : Loader} {first waiting : List Inclusion} {inclusion : Inclusion}
variable {requested found asked all : List String} {s : Survey} {text : String} {nodes : List Node}

/-! ### Visits -/

theorem visit_of_text (load : loader.load inclusion.name = .ok (some text)) (parse : Template.parse text = .ok nodes) :
    visit ns loader inclusion = (Node.walkAll ns inclusion.locals nodes).1 := by
  simp only [visit, load, parse]

theorem visit_of_absent (load : loader.load inclusion.name = .ok none) :
    visit ns loader inclusion = ⟨if inclusion.ignoreMissing then [] else [missingInclusion inclusion.name], []⟩ := by
  simp only [visit, load]

theorem visit_of_unreadable {error : FileError} (load : loader.load inclusion.name = .error error) :
    visit ns loader inclusion = ⟨[missingInclusion inclusion.name], []⟩ := by
  simp only [visit, load]

theorem Explored.mono {more later : List String} (h : Explored ns loader requested found inclusion)
    (hr : requested ⊆ more) (hf : found ⊆ later) : Explored ns loader more later inclusion :=
  ⟨List.Subset.trans h.1 hf, List.Subset.trans h.2 hr⟩

theorem Explored.of_text (h : Explored ns loader requested found inclusion)
    (load : loader.load inclusion.name = .ok (some text)) (parse : Template.parse text = .ok nodes) :
    (Node.walkAll ns inclusion.locals nodes).1.missing ⊆ found ∧
      (Node.walkAll ns inclusion.locals nodes).1.names ⊆ requested := by
  rwa [Explored, visit_of_text load parse] at h

/-! ### Searches -/

/-- A visit and what the search then does inside and behind. -/
theorem Complete.enter {next : Inclusion} {rest : List Inclusion} {inside more : List String}
    (reached : Reachable ns loader first next)
    (entered : Complete ns loader first (visit ns loader next).inclusions (requested ++ [next.name])
      (found ++ (visit ns loader next).missing) inside more)
    (after : Complete ns loader first rest inside more asked all) (named : next.name ∈ asked) (kept : inside ⊆ asked) :
    Complete ns loader first (next :: rest) requested found asked all where
  sound := fun entry m => by
    rcases after.sound entry m with m | visited
    · rcases entered.sound entry m with m | visited
      · rcases List.mem_append.1 m with m | m
        · exact .inl m
        · exact .inr ⟨next, reached, m⟩
      · exact .inr visited
    · exact .inr visited
  found := List.Subset.trans (List.subset_append_left ..) (List.Subset.trans entered.found after.found)
  waiting := by
    rw [List.map_cons, List.cons_subset]
    exact ⟨named, after.waiting⟩
  explored := fun name m => by
    rcases after.explored name m with m | explored
    · rcases entered.explored name m with m | ⟨inclusion, reached, same, explored⟩
      · rcases List.mem_append.1 m with m | m
        · exact .inl m
        · refine .inr ⟨next, reached, (List.mem_singleton.1 m).symm, ?_, List.Subset.trans entered.waiting kept⟩
          exact List.Subset.trans (List.subset_append_right ..) (List.Subset.trans entered.found after.found)
      · exact .inr ⟨inclusion, reached, same, explored.mono kept after.found⟩
    · exact .inr explored

/-- A visit that comes to no further inclusion. -/
theorem Complete.request {next : Inclusion} {rest : List Inclusion} {entries more : List String}
    (reached : Reachable ns loader first next) (leaf : visit ns loader next = ⟨entries, []⟩)
    (eq : found ++ entries = more) (kept : requested ++ [next.name] ⊆ asked)
    (after : Complete ns loader first rest (requested ++ [next.name]) more asked all) :
    Complete ns loader first (next :: rest) requested found asked all := by
  refine .enter reached ?_ after (kept (by simp)) kept
  rw [leaf, eq]
  exact ⟨fun entry m => .inl m, List.Subset.refl _, List.nil_subset _, fun name m => .inl m⟩

theorem Search.complete (h : Search ns loader waiting requested found s) :
    ∀ all, s.outcome = .ok all → (∀ inclusion ∈ waiting, Reachable ns loader first inclusion) →
      Complete ns loader first waiting requested found s.requested all := by
  -- Where a template is entered, the search inside and the one behind are complete, and the visit stands in front.
  induction h with
  | done requested found =>
    intro all outcome _
    cases outcome
    exact ⟨fun entry m => .inl m, List.Subset.refl _, List.nil_subset _, fun name m => .inl m⟩
  | seen known after ih =>
    intro all outcome reached
    rw [List.forall_mem_cons] at reached
    have rest := ih all outcome reached.2
    refine ⟨rest.sound, rest.found, ?_, rest.explored⟩
    rw [List.map_cons, List.cons_subset]
    exact ⟨after.subset known, rest.waiting⟩
  | optional fresh load ignored after ih =>
    intro all outcome reached
    rw [List.forall_mem_cons] at reached
    exact (ih all outcome reached.2).request reached.1 (visit_of_absent load) (by simp [ignored]) after.subset
  | absent fresh load required after ih =>
    intro all outcome reached
    rw [List.forall_mem_cons] at reached
    exact (ih all outcome reached.2).request reached.1 (visit_of_absent load) (by simp [required]) after.subset
  | unreadable fresh load after ih =>
    intro all outcome reached
    rw [List.forall_mem_cons] at reached
    exact (ih all outcome reached.2).request reached.1 (visit_of_unreadable load) rfl after.subset
  | malformed => exact fun _ outcome => by cases outcome
  | stopped => exact fun _ outcome => by cases outcome
  | entered fresh load parse enter after ihEnter ihAfter =>
    intro all outcome reached
    rw [List.forall_mem_cons] at reached
    have entered := ihEnter _ rfl fun inclusion m => reached.1.inside load parse m
    rw [← visit_of_text load parse] at entered
    exact entered.enter reached.1 (ihAfter all outcome reached.2) (after.subset (enter.subset (by simp))) after.subset

/-- A search comes to its end if all texts parse. -/
theorem Search.ok_of_parse (h : Search ns loader waiting requested found s)
    (parses : ∀ name text, loader.load name = .ok (some text) → ∃ nodes, Template.parse text = .ok nodes) :
    ∃ all, s.outcome = .ok all := by
  induction h with
  | done requested found => exact ⟨found, rfl⟩
  | seen _ _ ih | optional _ _ _ _ ih | absent _ _ _ _ ih | unreadable _ _ _ ih => exact ih
  | malformed _ load parse =>
    obtain ⟨nodes, parses⟩ := parses _ _ load
    cases parse.symm.trans parses
  | stopped _ _ _ _ ih =>
    obtain ⟨all, outcome⟩ := ih
    cases outcome
  | entered _ _ _ _ _ _ ih => exact ih

/-- The survey of a source whose inclusions all parse reports what a complete search has found. -/
theorem exists_complete {source : String} (ns : Namespace) (finite : loader.IsFinite)
    (parses : ∀ name text, loader.load name = .ok (some text) → ∃ nodes, Template.parse text = .ok nodes)
    (parse : Template.parse source = .ok nodes) :
    ∃ asked all, (run source ns loader).outcome = .ok (ascending all) ∧
      Complete ns loader (Node.walkAll ns [] nodes).1.inclusions (Node.walkAll ns [] nodes).1.inclusions []
        (Node.walkAll ns [] nodes).1.missing asked all := by
  have ⟨names, _, loads⟩ := finite
  obtain ⟨s, search⟩ : ∃ s, Search ns loader (Node.walkAll ns [] nodes).1.inclusions []
      (Node.walkAll ns [] nodes).1.missing s := exists_search loads _ _ _ _ (Nat.le_refl _)
  obtain ⟨all, outcome⟩ := search.ok_of_parse parses
  refine ⟨s.requested, all, ?_, search.complete all outcome fun _ m => .first m⟩
  rw [← (DepthFirst.searched parse search).eq_run finite, outcome]
  rfl

end Folio.Survey
