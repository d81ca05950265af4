import Folio.Proofs.Analysis.DepthFirst
import Folio.Stylesheet

/-! The resolution of stylesheets by rules, one for each thing that a name can turn out to be. A sheet that extends a
parent is what the parent resolves to with the sheet's own text behind it. The way up the chain, which puts the texts
together only when it has come to the top, gives the same sheet, asks for the same names and fails alike. -/
namespace Folio.Stylesheet

open Survey (left left_request left_nil nodup_request)

/-- What a name resolves to behind a chain of sheets, each of which extends the next one and the last one this name, and
the names that are asked for from here on. -/
inductive Resolves (loader : Loader) : List String → String → Resolution → Prop
  | cycle {chain : List String} {name : String} (seen : name ∈ chain) :
      Resolves loader chain name ⟨[], .error (.inheritanceCycle (chain ++ [name]))⟩
  | unreadable {chain : List String} {name : String} {error : FileError} (fresh : name ∉ chain)
      (load : loader.load name = .error error) : Resolves loader chain name ⟨[name], .error (.file error)⟩
  | absent {name : String} (load : loader.load name = .ok none) : Resolves loader [] name ⟨[name], .ok ""⟩
  | orphaned {chain : List String} {name : String} (fresh : name ∉ chain) (reached : chain ≠ [])
      (load : loader.load name = .ok none) :
      Resolves loader chain name ⟨[name], .error (.missingParentStylesheet name)⟩
  | top {chain : List String} {name css : String} (fresh : name ∉ chain) (load : loader.load name = .ok (some css))
      (plain : directive? css.toList = none) : Resolves loader chain name ⟨[name], .ok css⟩
  | inherited {chain requested : List String} {name css parent : String} {own : List Char}
      {outcome : Except Error String} (fresh : name ∉ chain) (load : loader.load name = .ok (some css))
      (directive : directive? css.toList = some (parent, own))
      (above : Resolves loader (chain ++ [name]) parent ⟨requested, outcome⟩) :
      Resolves loader chain name ⟨name :: requested, outcome.map (fun css => css ++ "\n" ++ String.ofList own)⟩

variable {loader : Loader} {chain : List String} {name : String} {r : Resolution}

/-! ### What is asked for -/

/-- No name is asked for twice, nor one that the chain holds. -/
theorem Resolves.nodup (h : Resolves loader chain name r) (once : chain.Nodup) : (chain ++ r.requested).Nodup := by
  induction h with
  | cycle => rwa [List.append_nil]
  | absent => simp
  | unreadable fresh | orphaned fresh | top fresh => exact nodup_request once fresh
  | inherited fresh _ _ _ ih =>
    rw [← List.append_cons] at ih
    exact ih (nodup_request once fresh)

/-- The error of a cycle names the whole way and the name that came again. -/
theorem Resolves.eq_of_cycle (h : Resolves loader chain name r) {names : List String}
    (failed : r.outcome = .error (.inheritanceCycle names)) :
    ∃ again ∈ chain ++ r.requested, names = chain ++ r.requested ++ [again] := by
  induction h with
  | cycle seen =>
    cases failed
    rw [List.append_nil]
    exact ⟨_, seen, rfl⟩
  | unreadable | absent | orphaned | top => cases failed
  | @inherited chain _ name _ _ _ outcome _ _ _ _ ih =>
    cases outcome with
    | ok => cases failed
    | error error =>
      rw [← List.append_cons] at ih
      exact ih failed

/-- No resolution ends for want of rounds, nor by anything else that belongs to templates. -/
theorem Resolves.ne_render (h : Resolves loader chain name r) (error : RenderError) :
    r.outcome ≠ .error (.render error) := by
  induction h with
  | cycle | unreadable | absent | orphaned | top => exact fun failed => by cases failed
  | @inherited _ _ _ _ _ _ outcome _ _ _ _ ih =>
    intro failed
    cases outcome with
    | ok => cases failed
    | error error => exact ih failed

/-! ### The way up -/

theorem stack_concat (sheet own : String) (texts : List String) :
    stack sheet (texts ++ [own]) = stack (sheet ++ "\n" ++ own) texts := by
  rw [stack, List.reverse_append]
  rfl

/-- The way up asks for what the resolution asks for, and puts the texts that wait behind what it gives. -/
theorem Resolves.climb_eq {names : List String}
    (finite : ∀ name text, loader.load name = .ok (some text) → name ∈ names)
    (h : Resolves loader chain name r) : ∀ budget texts, left names chain ≤ budget → texts.length = chain.length →
      climb loader budget chain texts name = ⟨chain ++ r.requested, r.outcome.map (stack · texts)⟩ := by
  induction h with
  | cycle seen =>
    intro budget texts _ _
    rw [climb, if_pos (by simpa using seen), List.append_nil]
    rfl
  | unreadable fresh load =>
    intro budget texts _ _
    rw [climb, if_neg (by simpa using fresh), load]
    rfl
  | absent load =>
    intro budget texts _ paired
    rw [climb, if_neg (by simp), load, List.eq_nil_of_length_eq_zero paired]
    rfl
  | orphaned fresh reached load =>
    intro budget texts _ _
    rw [climb, if_neg (by simpa using fresh), load]
    simp [reached, Except.map]
  | top fresh load plain =>
    intro budget texts _ _
    rw [climb, if_neg (by simpa using fresh), load]
    simp only [plain]
    rfl
  | @inherited chain requested name css parent own outcome fresh load directive _ ih =>
    intro budget texts enough paired
    -- The sheet has a text that was not asked for yet, so that a round is left for its parent.
    have fewer := left_request (finite _ _ load) fresh
    obtain ⟨budget, rfl⟩ : ∃ n, budget = n + 1 := Nat.exists_eq_add_one.2 (by omega)
    have above := ih budget (texts ++ [String.ofList own]) (by omega) (by simp [paired])
    rw [climb, if_neg (by simpa using fresh), load]
    simp only [directive, above, List.append_assoc, List.singleton_append]
    cases outcome with
    | error error => rfl
    | ok css => simp only [Except.map, stack_concat]

/-! ### Termination -/

/-- Every name resolves: each sheet with a parent leaves fewer sheets to come to. -/
theorem exists_resolves {names : List String} (finite : ∀ name text, loader.load name = .ok (some text) → name ∈ names)
    (bound : Nat) : ∀ chain name, left names chain ≤ bound → ∃ r, Resolves loader chain name r := by
  induction bound using Nat.strongRecOn with
  | _ bound climbed =>
    intro chain name few
    by_cases seen : name ∈ chain
    · exact ⟨_, .cycle seen⟩
    cases load : loader.load name with
    | error error => exact ⟨_, .unreadable seen load⟩
    | ok text? =>
      cases text? with
      | none =>
        by_cases reached : chain = []
        · subst reached
          exact ⟨_, .absent load⟩
        · exact ⟨_, .orphaned seen reached load⟩
      | some css =>
        cases directive : directive? css.toList with
        | none => exact ⟨_, .top seen load directive⟩
        | some split =>
          have fewer := Nat.lt_of_lt_of_le (left_request (finite _ _ load) seen) few
          obtain ⟨_, above⟩ := climbed _ fewer (chain ++ [name]) split.1 (Nat.le_refl _)
          exact ⟨_, .inherited seen load directive above⟩

/-- A sheet resolves in one way, which the way up finds, without asking for a name twice and without running out of
rounds. The error of a cycle shows the names that were asked for and the one that comes again. -/
theorem resolves_iff (name : String) (finite : loader.IsFinite) :
    (∀ r, Resolves loader [] name r ↔ r = resolve loader name) ∧ (resolve loader name).requested.Nodup ∧
      (∀ error, (resolve loader name).outcome ≠ .error (.render error)) ∧
      ∀ names, (resolve loader name).outcome = .error (.inheritanceCycle names) →
        (∃ again ∈ (resolve loader name).requested, names = (resolve loader name).requested ++ [again]) ∧
          (Error.inheritanceCycle names).message =
            "Template CSS inheritance cycle detected: " ++ " -> ".intercalate names := by
  obtain ⟨names, few, finite⟩ := finite
  have eq_resolve {r : Resolution} (h : Resolves loader [] name r) : r = resolve loader name := by
    have climbs := h.climb_eq finite (loader.limit + 1) [] (by rw [left_nil]; omega) rfl
    rw [resolve, climbs]
    obtain ⟨requested, outcome⟩ := r
    cases outcome <;> rfl
  obtain ⟨r, h⟩ := exists_resolves finite _ [] name (Nat.le_refl _)
  have resolves : Resolves loader [] name (resolve loader name) := eq_resolve h ▸ h
  refine ⟨fun r => ⟨eq_resolve, fun e => e ▸ resolves⟩, resolves.nodup List.nodup_nil, resolves.ne_render, ?_⟩
  exact fun names failed => ⟨resolves.eq_of_cycle failed, rfl⟩

/-- A sheet that extends one of two which extend one another. -/
theorem resolves_of_cycle :
    let loader := Loader.ofList [("offer", "/* @extends brand */\np \x7b\x7d"), ("brand", "/* @extends base */"),
      ("base", "/* @extends brand */\nh1 \x7b\x7d")]
    loader.IsFinite ∧ ∃ r, Resolves loader [] "offer" r ∧ r.requested = ["offer", "brand", "base"] ∧
      (r.outcome.tryCatch (fun error => .ok error.message)).toOption =
        some "Template CSS inheritance cycle detected: offer -> brand -> base -> brand" := by
  intro loader
  have finite : loader.IsFinite := Loader.isFinite_ofList _
  have resolves : Resolves loader [] "offer" (resolve loader "offer") := ((resolves_iff "offer" finite).1 _).2 rfl
  exact ⟨finite, resolve loader "offer", resolves, by decide +kernel, by decide +kernel⟩

end Folio.Stylesheet
