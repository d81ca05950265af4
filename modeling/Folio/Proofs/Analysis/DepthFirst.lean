import Folio.Analysis.Survey
import Mathlib.Data.List.Basic

/-! Surveys as a depth-first search. The search is given by rules that enter a template at the inclusion
that names it and come back to what follows. A survey keeps the inclusions that wait in one list instead,
and both request the same names in the same order and report the same. -/
namespace Folio

/-- Texts are found under finitely many names, no more than the limit. -/
def Loader.IsFinite (loader : Loader) : Prop :=
  ∃ names : List String, names.length ≤ loader.limit ∧
    ∀ name text, loader.load name = .ok (some text) → name ∈ names

theorem Loader.isFinite_ofList (texts : List (String × String)) : (Loader.ofList texts).IsFinite := by
  refine ⟨texts.map (·.1), by simp [Loader.ofList], fun name text h => ?_⟩
  obtain ⟨before, after, rfl, -⟩ := List.lookup_eq_some_iff.1 (Except.ok.inj h)
  simp

namespace Survey

section Rules

variable (ns : Namespace) (loader : Loader)

/-- The depth-first search through inclusions after the given names were requested and the given paths
found. What it finds is in no particular order yet. -/
inductive Search : List Inclusion → List String → List String → Survey → Prop
  | done (requested found : List String) : Search [] requested found ⟨requested, .ok found⟩
  | seen {next : Inclusion} {rest : List Inclusion} {requested found : List String} {s : Survey}
      (known : next.name ∈ requested) (after : Search rest requested found s) :
      Search (next :: rest) requested found s
  | optional {next : Inclusion} {rest : List Inclusion} {requested found : List String} {s : Survey}
      (fresh : next.name ∉ requested) (load : loader.load next.name = .ok none)
      (ignored : next.ignoreMissing = true)
      (after : Search rest (requested ++ [next.name]) found s) : Search (next :: rest) requested found s
  | absent {next : Inclusion} {rest : List Inclusion} {requested found : List String} {s : Survey}
      (fresh : next.name ∉ requested) (load : loader.load next.name = .ok none)
      (required : next.ignoreMissing = false)
      (after : Search rest (requested ++ [next.name]) (found ++ [missingInclusion next.name]) s) :
      Search (next :: rest) requested found s
  | unreadable {next : Inclusion} {rest : List Inclusion} {requested found : List String} {s : Survey}
      {error : FileError} (fresh : next.name ∉ requested) (load : loader.load next.name = .error error)
      (after : Search rest (requested ++ [next.name]) (found ++ [missingInclusion next.name]) s) :
      Search (next :: rest) requested found s
  | malformed {next : Inclusion} {rest : List Inclusion} {requested found : List String} {text : String}
      {error : ParseError} (fresh : next.name ∉ requested) (load : loader.load next.name = .ok (some text))
      (parse : Template.parse text = .error error) :
      Search (next :: rest) requested found ⟨requested ++ [next.name], .error (.parse next.name error)⟩
  | stopped {next : Inclusion} {rest : List Inclusion} {requested found inside : List String} {text : String}
      {nodes : List Node} {error : RenderError} (fresh : next.name ∉ requested)
      (load : loader.load next.name = .ok (some text)) (parse : Template.parse text = .ok nodes)
      (enter : Search (Node.walkAll ns next.locals nodes).1.inclusions (requested ++ [next.name])
        (found ++ (Node.walkAll ns next.locals nodes).1.missing) ⟨inside, .error error⟩) :
      Search (next :: rest) requested found ⟨inside, .error error⟩
  | entered {next : Inclusion} {rest : List Inclusion} {requested found inside more : List String}
      {text : String} {nodes : List Node} {s : Survey} (fresh : next.name ∉ requested)
      (load : loader.load next.name = .ok (some text)) (parse : Template.parse text = .ok nodes)
      (enter : Search (Node.walkAll ns next.locals nodes).1.inclusions (requested ++ [next.name])
        (found ++ (Node.walkAll ns next.locals nodes).1.missing) ⟨inside, .ok more⟩)
      (after : Search rest inside more s) : Search (next :: rest) requested found s

/-- The survey of a source by depth-first search. -/
inductive DepthFirst (source : String) : Survey → Prop
  | malformed {error : ParseError} (parse : Template.parse source = .error error) :
      DepthFirst source ⟨[], .error (.parse Template.inlineName error)⟩
  | searched {nodes : List Node} {s : Survey} (parse : Template.parse source = .ok nodes)
      (search : Search ns loader (Node.walkAll ns [] nodes).1.inclusions []
        (Node.walkAll ns [] nodes).1.missing s) :
      DepthFirst source ⟨s.requested, s.outcome.map ascending⟩

end Rules

variable {ns : Namespace} {loader : Loader} {waiting : List Inclusion} {requested found : List String}
variable {s : Survey}

/-! ### Requests -/

/-- A search only adds to the names that were requested. -/
theorem Search.subset (h : Search ns loader waiting requested found s) : requested ⊆ s.requested := by
  induction h with
  | done => exact List.Subset.refl _
  | seen _ _ ih => exact ih
  | optional _ _ _ _ ih | absent _ _ _ _ ih | unreadable _ _ _ ih =>
    exact List.Subset.trans (List.subset_append_left ..) ih
  | malformed => exact List.subset_append_left ..
  | stopped _ _ _ _ ih => exact List.Subset.trans (List.subset_append_left ..) ih
  | entered _ _ _ _ _ inside after =>
    exact List.Subset.trans (List.subset_append_left ..) (List.Subset.trans inside after)

theorem nodup_request {name : String} (h : requested.Nodup) (fresh : name ∉ requested) :
    (requested ++ [name]).Nodup := by
  rw [List.nodup_append]
  refine ⟨h, by simp, ?_⟩
  rintro a ha b hb rfl
  exact fresh (List.mem_singleton.1 hb ▸ ha)

/-- No name is requested twice. -/
theorem Search.nodup (h : Search ns loader waiting requested found s) (once : requested.Nodup) :
    s.requested.Nodup := by
  induction h with
  | done => exact once
  | seen _ _ ih => exact ih once
  | optional fresh _ _ _ ih | absent fresh _ _ _ ih | unreadable fresh _ _ ih =>
    exact ih (nodup_request once fresh)
  | malformed fresh => exact nodup_request once fresh
  | stopped fresh _ _ _ ih => exact ih (nodup_request once fresh)
  | entered fresh _ _ _ _ inside after => exact after (inside (nodup_request once fresh))

/-! ### Texts that are left -/

/-- The number of names, of those that have a text, that were not requested yet. -/
def left (names requested : List String) : Nat :=
  (names.filter (fun name => !requested.contains name)).length

theorem left_le_of_subset (names : List String) {after : List String} (h : requested ⊆ after) :
    left names after ≤ left names requested := by
  refine (List.monotone_filter_right names fun name => ?_).length_le
  simpa using fun absent m => absent (h m)

theorem left_request_le (names requested : List String) (name : String) :
    left names (requested ++ [name]) ≤ left names requested :=
  left_le_of_subset names (List.subset_append_left ..)

theorem left_request {names : List String} {name : String} (m : name ∈ names) (fresh : name ∉ requested) :
    left names (requested ++ [name]) < left names requested := by
  have twice : names.filter (fun n => !(requested ++ [name]).contains n) =
      (names.filter (fun n => !requested.contains n)).filter (fun n => n ≠ name) := by
    rw [List.filter_filter]
    refine List.filter_congr fun n _ => ?_
    by_cases h : n = name <;> simp [h]
  rw [left, twice, left, List.length_filter_lt_length_iff_exists]
  exact ⟨name, by simp [m, fresh], by simp⟩

/-! ### The list of what waits -/

section Steps

variable {next : Inclusion} (budget : Nat)

theorem follow_seen (known : next.name ∈ requested) :
    follow ns loader budget requested found (next :: waiting) =
      follow ns loader budget requested found waiting := by
  cases budget <;> exact if_pos (List.contains_iff_mem.2 known)

variable (fresh : next.name ∉ requested)
include fresh

theorem follow_absent (load : loader.load next.name = .ok none) :
    follow ns loader budget requested found (next :: waiting) =
      follow ns loader budget (requested ++ [next.name])
        (if next.ignoreMissing then found else found ++ [missingInclusion next.name]) waiting := by
  cases budget <;> exact (if_neg (mt List.contains_iff_mem.1 fresh)).trans (by rw [load]; rfl)

theorem follow_unreadable {error : FileError} (load : loader.load next.name = .error error) :
    follow ns loader budget requested found (next :: waiting) =
      follow ns loader budget (requested ++ [next.name]) (found ++ [missingInclusion next.name]) waiting := by
  cases budget <;> exact (if_neg (mt List.contains_iff_mem.1 fresh)).trans (by rw [load]; rfl)

theorem follow_malformed {text : String} {error : ParseError}
    (load : loader.load next.name = .ok (some text)) (parse : Template.parse text = .error error) :
    follow ns loader budget requested found (next :: waiting) =
      ⟨requested ++ [next.name], .error (.parse next.name error)⟩ := by
  cases budget <;> exact (if_neg (mt List.contains_iff_mem.1 fresh)).trans (by rw [load]; dsimp only; rw [parse])

theorem follow_enter {text : String} {nodes : List Node}
    (load : loader.load next.name = .ok (some text)) (parse : Template.parse text = .ok nodes) :
    follow ns loader (budget + 1) requested found (next :: waiting) =
      follow ns loader budget (requested ++ [next.name])
        (found ++ (Node.walkAll ns next.locals nodes).1.missing)
        ((Node.walkAll ns next.locals nodes).1.inclusions ++ waiting) := by
  refine (if_neg (mt List.contains_iff_mem.1 fresh)).trans ?_
  rw [load]
  dsimp only
  rw [parse]

end Steps

/-- What a survey goes on with after a search. -/
def resume (ns : Namespace) (loader : Loader) (budget : Nat) (s : Survey) (waiting : List Inclusion) : Survey :=
  match s.outcome with
  | .ok found => follow ns loader budget s.requested found waiting
  | .error error => ⟨s.requested, .error error⟩

/-- Inclusions in front of those that wait are searched first. -/
theorem Search.follow_append {names : List String}
    (finite : ∀ name text, loader.load name = .ok (some text) → name ∈ names)
    (h : Search ns loader waiting requested found s) (later : List Inclusion) :
    ∀ budget, left names requested ≤ budget → ∃ rest, left names s.requested ≤ rest ∧
      follow ns loader budget requested found (waiting ++ later) = resume ns loader rest s later := by
  induction h generalizing later with
  | done requested found => exact fun budget enough => ⟨budget, enough, rfl⟩
  | seen known _ ih =>
    intro budget enough
    rw [List.cons_append, follow_seen budget known]
    exact ih later budget enough
  | optional fresh load ignored _ ih =>
    intro budget enough
    rw [List.cons_append, follow_absent budget fresh load, ignored]
    exact ih later budget (Nat.le_trans (left_request_le ..) enough)
  | absent fresh load required _ ih =>
    intro budget enough
    rw [List.cons_append, follow_absent budget fresh load, required]
    exact ih later budget (Nat.le_trans (left_request_le ..) enough)
  | unreadable fresh load _ ih =>
    intro budget enough
    rw [List.cons_append, follow_unreadable budget fresh load]
    exact ih later budget (Nat.le_trans (left_request_le ..) enough)
  | malformed fresh load parse =>
    intro budget enough
    rw [List.cons_append, follow_malformed budget fresh load parse]
    exact ⟨budget, Nat.le_trans (left_request_le ..) enough, rfl⟩
  | @stopped _ waiting _ _ _ _ _ _ fresh load parse _ ih =>
    intro budget enough
    have fewer := left_request (finite _ _ load) fresh
    obtain ⟨budget, rfl⟩ : ∃ n, budget = n + 1 := Nat.exists_eq_add_one.2 (by omega)
    obtain ⟨rest, few, eq⟩ := ih (waiting ++ later) budget (by omega)
    exact ⟨rest, few, by rw [List.cons_append, follow_enter budget fresh load parse, eq, resume, resume]⟩
  | @entered _ waiting _ _ _ _ _ _ _ fresh load parse _ _ inside after =>
    intro budget enough
    have fewer := left_request (finite _ _ load) fresh
    obtain ⟨budget, rfl⟩ : ∃ n, budget = n + 1 := Nat.exists_eq_add_one.2 (by omega)
    obtain ⟨between, few, eq⟩ := inside (waiting ++ later) budget (by omega)
    rw [List.cons_append, follow_enter budget fresh load parse, eq]
    exact after later between few

/-! ### Termination -/

/-- The search comes to an end: each text it enters leaves fewer texts to enter. -/
theorem exists_search {names : List String}
    (finite : ∀ name text, loader.load name = .ok (some text) → name ∈ names) (bound : Nat) :
    ∀ (waiting : List Inclusion) (requested found : List String), left names requested ≤ bound →
      ∃ s, Search ns loader waiting requested found s := by
  -- A text that is entered leaves fewer texts, and what waits beside it gets shorter.
  induction bound using Nat.strongRecOn with
  | _ bound enter =>
    intro waiting
    induction waiting with
    | nil => exact fun requested found _ => ⟨_, .done requested found⟩
    | cons next rest ih =>
      intro requested found few
      by_cases known : next.name ∈ requested
      · obtain ⟨s, h⟩ := ih requested found few
        exact ⟨s, .seen known h⟩
      · have fewer := Nat.le_trans (left_request_le names requested next.name) few
        cases load : loader.load next.name with
        | error error =>
          obtain ⟨s, h⟩ := ih _ (found ++ [missingInclusion next.name]) fewer
          exact ⟨s, .unreadable known load h⟩
        | ok text? =>
          cases text? with
          | none =>
            cases ignored : next.ignoreMissing with
            | true =>
              obtain ⟨s, h⟩ := ih _ found fewer
              exact ⟨s, .optional known load ignored h⟩
            | false =>
              obtain ⟨s, h⟩ := ih _ (found ++ [missingInclusion next.name]) fewer
              exact ⟨s, .absent known load ignored h⟩
          | some text =>
            cases parse : Template.parse text with
            | error error => exact ⟨_, .malformed known load parse⟩
            | ok nodes =>
              have fewer := Nat.lt_of_lt_of_le (left_request (finite _ _ load) known) few
              obtain ⟨⟨inside, outcome⟩, h⟩ := enter _ fewer
                (Node.walkAll ns next.locals nodes).1.inclusions (requested ++ [next.name])
                (found ++ (Node.walkAll ns next.locals nodes).1.missing) (Nat.le_refl _)
              cases outcome with
              | error error => exact ⟨_, .stopped known load parse h⟩
              | ok more =>
                have fewer := Nat.le_of_lt (Nat.lt_of_le_of_lt (left_le_of_subset names h.subset) fewer)
                obtain ⟨s, after⟩ := ih inside more fewer
                exact ⟨s, .entered known load parse h after⟩

/-! ### Surveys -/

theorem left_nil (names : List String) : left names [] = names.length := by
  simp [left]

/-- A depth-first search of a source is its survey. -/
theorem DepthFirst.eq_run {source : String} (finite : loader.IsFinite)
    (h : DepthFirst ns loader source s) : s = run source ns loader := by
  obtain ⟨names, few, finite⟩ := finite
  cases h with
  | malformed parse => rw [run, parse]
  | @searched nodes s parse search =>
    obtain ⟨rest, -, eq⟩ := search.follow_append finite [] (source.utf8ByteSize + loader.limit)
      (by rw [left_nil]; omega)
    rw [List.append_nil] at eq
    simp only [run, parse, eq, resume]
    cases s.outcome with
    | error error => rfl
    | ok found => simp only [follow_nil, Except.map]

theorem depthFirst_run (source : String) (finite : loader.IsFinite) :
    DepthFirst ns loader source (run source ns loader) := by
  have ⟨names, _, loads⟩ := finite
  have exists_depthFirst : ∃ s, DepthFirst ns loader source s := by
    cases parse : Template.parse source with
    | error error => exact ⟨_, .malformed parse⟩
    | ok nodes =>
      obtain ⟨s, search⟩ : ∃ s, Search ns loader (Node.walkAll ns [] nodes).1.inclusions []
          (Node.walkAll ns [] nodes).1.missing s := exists_search loads _ _ _ _ (Nat.le_refl _)
      exact ⟨_, .searched parse search⟩
  obtain ⟨s, h⟩ := exists_depthFirst
  exact h.eq_run finite ▸ h

/-- Only a text that does not parse stops a search. -/
theorem Search.parse_of_error (h : Search ns loader waiting requested found s) {error : RenderError}
    (failed : s.outcome = .error error) : ∃ name fault, error = .parse name fault := by
  induction h with
  | done => cases failed
  | seen _ _ ih | optional _ _ _ _ ih | absent _ _ _ _ ih | unreadable _ _ _ ih => exact ih failed
  | malformed => cases failed; exact ⟨_, _, rfl⟩
  | stopped _ _ _ _ ih => exact ih failed
  | entered _ _ _ _ _ _ ih => exact ih failed

theorem DepthFirst.parse_of_error {source : String} (h : DepthFirst ns loader source s)
    {error : RenderError} (failed : s.outcome = .error error) : ∃ name fault, error = .parse name fault := by
  cases h with
  | malformed => cases failed; exact ⟨_, _, rfl⟩
  | @searched _ s _ search =>
    cases outcome : s.outcome with
    | error fault =>
      simp only [outcome, Except.map, Except.error.injEq] at failed
      exact search.parse_of_error (failed ▸ outcome)
    | ok found => simp [outcome, Except.map] at failed

theorem DepthFirst.nodup {source : String} (h : DepthFirst ns loader source s) : s.requested.Nodup := by
  cases h with
  | malformed => exact List.nodup_nil
  | searched _ search => exact search.nodup List.nodup_nil

/-- The depth-first search of a source ends in one way, which is its survey. It requests no name twice and
fails only on a text that does not parse. -/
theorem depthFirst_iff (source : String) (finite : loader.IsFinite) :
    (∀ s, DepthFirst ns loader source s ↔ s = run source ns loader) ∧
      (run source ns loader).requested.Nodup ∧
      ∀ error, (run source ns loader).outcome = .error error → ∃ name fault, error = .parse name fault := by
  have search : DepthFirst ns loader source (run source ns loader) := depthFirst_run source finite
  refine ⟨fun s => ⟨fun h => h.eq_run finite, fun h => h ▸ search⟩, search.nodup, ?_⟩
  intro error failed
  exact search.parse_of_error failed

/-- Two templates that include one another, one of them included twice, and a third that is not there. -/
theorem depthFirst_of_cycle :
    let loader := Loader.ofList [("a", "\x7b% include 'b' %\x7d\x7b\x7b x \x7d\x7d"),
      ("b", "\x7b% include 'a' %\x7d\x7b% include 'c' %\x7d")]
    let source := "\x7b% include 'a' %\x7d\x7b% include 'b' %\x7d"
    loader.IsFinite ∧ ∃ s, DepthFirst .empty loader source s ∧ s.requested = ["a", "b", "c"] ∧
      s.outcome.toOption = some ["include:c", "x"] := by
  intro loader source
  have finite : loader.IsFinite := Loader.isFinite_ofList _
  have search : DepthFirst .empty loader source (run source .empty loader) :=
    ((depthFirst_iff source finite).1 _).2 rfl
  have shown : ((run source .empty loader).requested, (run source .empty loader).outcome.toOption) =
      (["a", "b", "c"], some ["include:c", "x"]) := by decide +kernel
  exact ⟨finite, run source .empty loader, search, Prod.mk.inj shown⟩

end Survey

end Folio
