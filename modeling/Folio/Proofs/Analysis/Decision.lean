import Folio.Analysis.Known
import Folio.Proofs.Namespace.Path
import Folio.Proofs.Template.Identifier
import Folio.Template.Render

/-! What is known of an expression, against what it evaluates to. A known truth is the truth of the value
as long as `and` and `or`, of which the analysis keeps the truth only, are not asked for the operand
that they return, and no key with a dot stands in a chain of lookups, whose dotted path would take it
for two. -/
namespace Folio

/-! ### Known truth -/

namespace Truth

/-- The truth does not rule the value of a condition out. -/
def Admits (t : Truth) (b : Bool) : Prop :=
  t = .unknown ∨ t = ofBool b

theorem Admits.not {t : Truth} {b : Bool} (h : t.Admits b) : t.not.Admits (!b) := by
  rcases h with rfl | rfl
  · exact .inl rfl
  · cases b <;> exact .inr rfl

theorem Admits.and_of_false {s : Truth} (t : Truth) (h : s.Admits Bool.false) : (s.and t).Admits Bool.false := by
  rcases h with rfl | rfl <;> cases t <;> simp [Admits, Truth.and, ofBool]

theorem Admits.and_of_true {s t : Truth} {b : Bool} (hs : s.Admits Bool.true) (ht : t.Admits b) :
    (s.and t).Admits b := by
  rcases hs with rfl | rfl <;> rcases ht with rfl | rfl <;> cases b <;>
    simp [Admits, Truth.and, ofBool]

theorem Admits.or_of_true {s : Truth} (t : Truth) (h : s.Admits Bool.true) : (s.or t).Admits Bool.true := by
  rcases h with rfl | rfl <;> cases t <;> simp [Admits, Truth.or, ofBool]

theorem Admits.or_of_false {s t : Truth} {b : Bool} (hs : s.Admits Bool.false) (ht : t.Admits b) :
    (s.or t).Admits b := by
  rcases hs with rfl | rfl <;> rcases ht with rfl | rfl <;> cases b <;>
    simp [Admits, Truth.or, ofBool]

theorem Admits.eq_true {b : Bool} (h : Truth.true.Admits b) : b = Bool.true := by
  cases b <;> simp_all [Admits, ofBool]

theorem Admits.eq_false {b : Bool} (h : Truth.false.Admits b) : b = Bool.false := by
  cases b <;> simp_all [Admits, ofBool]

theorem ofKnown_known? (t : Truth) : ofKnown t.known? = t := by
  cases t <;> rfl

theorem eq_bool_of_known? {t : Truth} {known : Value} (h : t.known? = some known) :
    ∃ b, known = .bool b ∧ t = ofBool b := by
  cases t <;> cases h
  · exact ⟨_, rfl, (rfl : _ = ofBool Bool.true)⟩
  · exact ⟨_, rfl, (rfl : _ = ofBool Bool.false)⟩

theorem admits_ofKnown {known? : Option Value} {value : Value}
    (h : ∀ known ∈ known?, value = known) : (ofKnown known?).Admits value.isTruthy := by
  cases known? with
  | none => exact .inl rfl
  | some known => rw [h known rfl]; exact .inr rfl

end Truth

/-! ### Contexts -/

namespace Template.Context

variable {context : Context} {ns : Namespace} {locals : List String}

/-- The context sees the namespace, and its scopes bind no names but the locals. -/
structure Within (context : Context) (ns : Namespace) (locals : List String) : Prop where
  globals : context.globals = ns
  bound : ∀ scope ∈ context.scopes, ∀ name, (Fields.find? name scope).isSome → name ∈ locals

theorem Within.lookup (h : context.Within ns locals) {name : String} (hn : name ∉ locals) :
    context.lookup name = (ns.get? name).getD .undefined := by
  have unbound : context.scopes.findSome? (Fields.find? name) = none :=
    List.findSome?_eq_none_iff.2 fun scope m =>
      Option.not_isSome_iff_eq_none.1 fun found => hn (h.bound scope m name found)
  rw [Context.lookup, unbound, h.globals]
  rfl

theorem within_ofNamespace (ns : Namespace) : (ofNamespace ns).Within ns [] :=
  ⟨rfl, fun scope m name found => by cases List.mem_singleton.1 m; cases found⟩

end Template.Context

/-! ### Chains of lookups -/

open Template (Setting Jumps Context eval)

namespace Expr

/-- What an expression is asked for. -/
inductive Use where
  | truth
  | value

/-- The key is a text that a dotted path would take for several segments. -/
def isDotted : Expr → Bool
  | .literal (.string key) => key.toList.contains '.'
  | _ => false

/-- No `and` and no `or` is asked for its value, and no path has a key with a dot. What the analysis
does not look into is free. -/
def isPlain : Use → Expr → Bool
  | .truth, .and left right | .truth, .or left right => isPlain .truth left && isPlain .truth right
  | .value, .and _ _ | .value, .or _ _ => false
  | _, .not inner => isPlain .truth inner
  | _, .isDefined target => isPlain .value target
  | _, .lookup base key =>
    isPlain .value base && isPlain .value key && !(base.path?.isSome && key.isDotted)
  | _, _ => true

/-- The variables in the parts of an expression that the analysis looks into. -/
def inspected : Expr → List String
  | .var name => [name]
  | .lookup left right | .and left right | .or left right => inspected left ++ inspected right
  | .not inner | .isDefined inner => inspected inner
  | _ => []

/-- The variables that the analysis meets are paths of one segment. -/
def Undotted (e : Expr) : Prop :=
  ∀ name ∈ e.inspected, '.' ∉ name.toList

theorem mem_names_of_inspected {e : Expr} {name : String} (h : name ∈ e.inspected) :
    name ∈ e.names := by
  fun_induction inspected e <;> simp_all only [names, List.mem_append, List.not_mem_nil]
  all_goals exact h.imp ‹_› ‹_›

theorem Named.undotted {e : Expr} (h : e.Named) : e.Undotted := fun name m =>
  Template.dot_notMem_of_isIdentifier (h name (mem_names_of_inspected m))

variable {ns : Namespace} {locals : List String} {context : Context}
variable {setting : Setting} {jumps : Jumps} {calls : Nat}

theorem Undotted.parts {base key : Expr} (h : (Expr.lookup base key).Undotted) : base.Undotted ∧ key.Undotted := by
  simpa [Undotted, inspected, or_imp, forall_and] using h

/-- The path of an expression starts with its variable. -/
theorem head?_segments_of_path? {e : Expr} {path : String} (hp : e.path? = some path)
    (undotted : e.Undotted) : e.root? = (Namespace.segments path).head? := by
  fun_induction path? e generalizing path with
  | case1 name =>
    cases hp
    rw [Namespace.segments_of_undotted (undotted name (by simp [inspected]))]
    rfl
  | case2 base segment ih | case3 base index ih =>
    obtain ⟨path, hb, rfl⟩ := Option.map_eq_some_iff.1 hp
    obtain ⟨name, rest, hs⟩ := List.exists_cons_of_ne_nil (Namespace.segments_ne_nil path)
    rw [root?, ih hb undotted.parts.1, Namespace.segments_join, hs]
    rfl
  | case4 => cases hp

theorem mem_inspected_of_root? {e : Expr} {name : String} (h : name ∈ e.root?) : name ∈ e.inspected := by
  fun_induction root? e with
  | case1 => exact List.mem_singleton.2 (Option.some.inj h).symm
  | case2 base key ih => exact List.mem_append_left _ (ih h)
  | case3 => cases h

section Agree

variable {other : Namespace}

/-- The namespaces agree on the variables that the analysis meets in the expression, locals apart. -/
def Agree (ns other : Namespace) (locals : List String) (e : Expr) : Prop :=
  ∀ name ∈ e.inspected, name ∉ locals → ns.get? name = other.get? name

theorem Agree.at?_eq {e : Expr} {path : String} (agree : Agree ns other locals e)
    (hp : e.path? = some path) (undotted : e.Undotted) (free : ¬ e.isLocal locals) :
    ns.at? path = other.at? path := by
  refine Namespace.at?_congr fun name m => ?_
  rw [← head?_segments_of_path? hp undotted] at m
  refine agree name (mem_inspected_of_root? m) fun here => free ?_
  rw [isLocal, Option.mem_def.1 m]
  simpa using here

/-- What is known of an expression depends on the variables that the analysis meets in it. -/
theorem known?_congr : ∀ {e : Expr}, e.Undotted → Agree ns other locals e →
    e.known? ns locals = e.known? other locals
  | .var name, undotted, agree => by
    rw [known?, known?]
    split
    · rfl
    · rename_i free
      rw [agree.at?_eq rfl undotted (by simpa [isLocal, root?] using free)]
  | .lookup base key, undotted, agree => by
    have ihb := known?_congr undotted.parts.1 fun name m => agree name (List.mem_append_left _ m)
    have ihk := known?_congr undotted.parts.2 fun name m => agree name (List.mem_append_right _ m)
    rw [known?, known?]
    split
    · rfl
    · rename_i free
      split
      · rename_i path hp
        rw [agree.at?_eq hp undotted free]
      · rw [ihb, ihk]
  | .and left right, undotted, agree | .or left right, undotted, agree => by
    have ihl := known?_congr (e := left) (fun name m => undotted name (List.mem_append_left _ m))
      fun name m => agree name (List.mem_append_left _ m)
    have ihr := known?_congr (e := right) (fun name m => undotted name (List.mem_append_right _ m))
      fun name m => agree name (List.mem_append_right _ m)
    simp only [known?, ihl, ihr]
  | .not inner, undotted, agree => by
    simp only [known?, known?_congr (e := inner) undotted agree]
  | .isDefined target, undotted, agree => by
    have ih := known?_congr (e := target) undotted agree
    rw [known?, known?]
    split
    · rfl
    · rename_i free
      split
      · rename_i path hp
        rw [Namespace.hasValueAt, Namespace.hasValueAt, Agree.at?_eq (e := target) agree hp undotted free]
      · rw [ih]
  | .literal _, _, _ | .filter .., _, _ | .compare .., _, _ | .binary .., _, _ | .neg _, _, _ | .call .., _, _
  | .test .., _, _ | .list _, _, _ | .dict _, _, _ | .inlineIf .., _, _ => rfl

end Agree

/-- A chain of lookups evaluates to what its dotted path leads to. -/
theorem eval_of_path? {e : Expr} {path : String} (hp : e.path? = some path) (undotted : e.Undotted)
    (plain : e.isPlain .value) (free : ¬ e.isLocal locals) (within : context.Within ns locals) :
    eval setting jumps calls context e = .ok ((ns.at? path).getD .undefined) := by
  fun_induction path? e generalizing path with
  | case1 name =>
    cases hp
    have unbound : name ∉ locals := by simpa [isLocal, root?] using free
    rw [eval, within.lookup unbound, ns.at?_of_undotted (undotted name (by simp [inspected]))]
  | case2 base segment ih =>
    obtain ⟨path, hb, rfl⟩ := Option.map_eq_some_iff.1 hp
    simp only [isPlain, hb, isDotted, Bool.and_eq_true] at plain
    have ih := ih hb undotted.parts.1 plain.1.1 free
    rw [eval, ih, ns.getD_at?_dot path (by simpa using plain.2)]
    simp only [eval]
    rfl
  | case3 base index ih =>
    obtain ⟨path, hb, rfl⟩ := Option.map_eq_some_iff.1 hp
    simp only [isPlain, Bool.and_eq_true] at plain
    have ih := ih hb undotted.parts.1 plain.1.1 free
    rw [eval, ih, ns.getD_at?_dot path (by simpa using Decimal.dot_notMem_ofInt index.toInt)]
    simp only [eval]
    rfl
  | case4 => cases hp

theorem bind_eq_ok {ε α β : Type} {x : Except ε α} {f : α → Except ε β} {b : β}
    (h : (x >>= f) = .ok b) : ∃ a, x = .ok a ∧ f a = .ok b := by
  cases x with
  | error e => cases h
  | ok a => exact ⟨a, rfl, h⟩

/-! ### Agreement -/

/-- What the analysis knows of the expression holds of a value: the known value is the value, and where
only the truth is asked for, the known truth is its truth. -/
structure Fits (ns : Namespace) (locals : List String) (e : Expr) (value : Value) : Prop where
  known : e.isPlain .value → ∀ known ∈ e.known? ns locals, value = known
  truth : e.isPlain .truth → (e.truth ns locals).Admits value.isTruthy

/-- An expression that is no `and` and no `or` is plain for its truth if it is for its value. -/
theorem Fits.of_value {e : Expr} {value : Value} (same : e.isPlain .truth → e.isPlain .value)
    (h : e.isPlain .value → ∀ known ∈ e.known? ns locals, value = known) : Fits ns locals e value :=
  ⟨h, fun plain => Truth.admits_ofKnown (h (same plain))⟩

theorem fits_lookup (within : context.Within ns locals) {base key : Expr} {b k value : Value}
    (undotted : (Expr.lookup base key).Undotted)
    (he : eval setting jumps calls context (.lookup base key) = .ok value)
    (hv : (b.segment? k.text).getD .undefined = value) (fb : Fits ns locals base b)
    (fk : Fits ns locals key k) : Fits ns locals (.lookup base key) value := by
  refine .of_value id fun plain known hk => ?_
  rw [known?] at hk
  split at hk
  · cases hk
  · rename_i free
    split at hk
    · rename_i path hp
      cases he.symm.trans (eval_of_path? hp undotted plain free within)
      cases hk; rfl
    · simp only [isPlain, Bool.and_eq_true] at plain
      obtain ⟨base', hb, hk⟩ := Option.bind_eq_some_iff.1 hk
      obtain ⟨key', hk', hk⟩ := Option.bind_eq_some_iff.1 hk
      cases hk
      rw [← hv, fb.known plain.1.1 _ hb, fk.known plain.1.2 _ hk']

theorem fits_isDefined (within : context.Within ns locals) {target : Expr} {value : Value}
    (undotted : target.Undotted) (he : eval setting jumps calls context target = .ok value)
    (ft : Fits ns locals target value) :
    Fits ns locals (.isDefined target) (.bool !value.isUndefined) := by
  refine .of_value id fun plain known hk => ?_
  rw [known?] at hk
  split at hk
  · cases hk
  · rename_i free
    split at hk
    · rename_i path hp
      cases he.symm.trans (eval_of_path? hp undotted plain free within)
      rw [Namespace.hasValueAt_eq] at hk
      cases hk; rfl
    · obtain ⟨v, hv, rfl⟩ := Option.map_eq_some_iff.1 hk
      rw [ft.known plain v hv]

theorem fits_not {inner : Expr} {value : Value} (fi : Fits ns locals inner value) :
    Fits ns locals (.not inner) (.bool !value.isTruthy) := by
  refine .of_value id fun plain known hk => ?_
  obtain ⟨b, rfl, ht⟩ := Truth.eq_bool_of_known? hk
  have admits := (fi.truth plain).not
  rw [show (inner.truth ns locals).not = _ from ht] at admits
  cases b
  · rw [show (!value.isTruthy) = _ from admits.eq_false]
  · rw [show (!value.isTruthy) = _ from admits.eq_true]

/-- `and` and `or` are known by their truth only. -/
theorem Fits.of_truth {e : Expr} {t : Truth} {value : Value} (never : ¬ e.isPlain .value)
    (ht : e.known? ns locals = t.known?) (h : e.isPlain .truth → t.Admits value.isTruthy) :
    Fits ns locals e value := by
  refine ⟨fun plain => absurd plain never, fun plain => ?_⟩
  rw [Expr.truth, ht, Truth.ofKnown_known?]
  exact h plain

theorem fits_and {left right : Expr} {l value : Value} (fl : Fits ns locals left l)
    (short : l.isTruthy = false → value = l) (long : l.isTruthy = true → Fits ns locals right value) :
    Fits ns locals (.and left right) value := by
  refine .of_truth (by simp [isPlain]) (by rw [known?]) fun plain => ?_
  simp only [isPlain, Bool.and_eq_true] at plain
  have admits := fl.truth plain.1
  cases hl : l.isTruthy with
  | false =>
    rw [hl] at admits
    rw [short hl, hl]
    exact admits.and_of_false _
  | true =>
    rw [hl] at admits
    exact admits.and_of_true ((long hl).truth plain.2)

theorem fits_or {left right : Expr} {l value : Value} (fl : Fits ns locals left l)
    (short : l.isTruthy = true → value = l) (long : l.isTruthy = false → Fits ns locals right value) :
    Fits ns locals (.or left right) value := by
  refine .of_truth (by simp [isPlain]) (by rw [known?]) fun plain => ?_
  simp only [isPlain, Bool.and_eq_true] at plain
  have admits := fl.truth plain.1
  cases hl : l.isTruthy with
  | true =>
    rw [hl] at admits
    rw [short hl, hl]
    exact admits.or_of_true _
  | false =>
    rw [hl] at admits
    exact admits.or_of_false ((long hl).truth plain.2)

/-- What is known of an expression holds of the value that it evaluates to. -/
theorem fits_of_eval (within : context.Within ns locals) : ∀ (e : Expr) {value : Value}, e.Undotted →
    eval setting jumps calls context e = .ok value → Fits ns locals e value
  | .literal known, value, _, he => by
    refine .of_value id fun _ v hk => ?_
    cases he; cases hk; rfl
  | .var name, value, undotted, he => by
    refine .of_value id fun plain v hk => ?_
    rw [known?] at hk
    split at hk
    · cases hk
    · rename_i free
      have path : (Expr.var name).path? = some name := rfl
      cases he.symm.trans (eval_of_path? path undotted plain (by simpa [isLocal, root?] using free) within)
      cases hk; rfl
  | .lookup base key, value, undotted, he => by
    have parts := undotted.parts
    obtain ⟨b, hb, h⟩ := bind_eq_ok (by simpa only [eval] using he)
    obtain ⟨k, hk, h⟩ := bind_eq_ok h
    exact fits_lookup within undotted he (by cases h; rfl) (fits_of_eval within base parts.1 hb)
      (fits_of_eval within key parts.2 hk)
  | .and left right, value, undotted, he => by
    have parts : left.Undotted ∧ right.Undotted := by
      simpa [Undotted, inspected, or_imp, forall_and] using undotted
    obtain ⟨l, hl, h⟩ := bind_eq_ok (by simpa only [eval] using he)
    refine fits_and (fits_of_eval within left parts.1 hl) (fun falsy => ?_) (fun truthy => ?_)
    · rw [falsy] at h; cases h; rfl
    · rw [truthy] at h; exact fits_of_eval within right parts.2 h
  | .or left right, value, undotted, he => by
    have parts : left.Undotted ∧ right.Undotted := by
      simpa [Undotted, inspected, or_imp, forall_and] using undotted
    obtain ⟨l, hl, h⟩ := bind_eq_ok (by simpa only [eval] using he)
    refine fits_or (fits_of_eval within left parts.1 hl) (fun truthy => ?_) (fun falsy => ?_)
    · rw [truthy] at h; cases h; rfl
    · rw [falsy] at h; exact fits_of_eval within right parts.2 h
  | .not inner, value, undotted, he => by
    obtain ⟨v, hv, h⟩ := bind_eq_ok (by simpa only [eval] using he)
    cases h
    exact fits_not (fits_of_eval within inner undotted hv)
  | .isDefined target, value, undotted, he => by
    obtain ⟨v, hv, h⟩ := bind_eq_ok (by simpa only [eval] using he)
    cases h
    exact fits_isDefined within undotted hv (fits_of_eval within target undotted hv)
  | .filter .., value, _, _ | .compare .., value, _, _ | .binary .., value, _, _
  | .neg _, value, _, _ | .call .., value, _, _ | .test .., value, _, _ | .list _, value, _, _
  | .dict _, value, _, _ | .inlineIf .., value, _, _ => .of_value id fun _ _ hk => by cases hk

/-! ### Soundness -/

/-- Wherever the expression evaluates, the truth that is known of it is the truth of the value, and the
text that is known of it is the value. -/
def IsSound (e : Expr) : Prop :=
  ∀ ⦃ns : Namespace⦄ ⦃locals : List String⦄ ⦃context : Context⦄ ⦃setting : Setting⦄ ⦃jumps : Jumps⦄
    ⦃calls : Nat⦄ ⦃value : Value⦄, context.Within ns locals →
    eval setting jumps calls context e = .ok value →
      (e.truth ns locals = .true → value.isTruthy) ∧ (e.truth ns locals = .false → ¬ value.isTruthy) ∧
      ∀ text, e.knownText? ns locals = some text → value = .string text

theorem known?_of_knownText? {e : Expr} {text : String} (h : e.knownText? ns locals = some text) :
    e.known? ns locals = some (.string text) := by
  rw [knownText?] at h
  split at h
  · rename_i s hs
    split at h
    · cases h
    · cases h; exact hs
  · cases h

/-- Of `and` and `or` no text is known, and everything else is plain for its value if it is for its truth. -/
theorem isPlain_value_of_knownText? {e : Expr} {text : String} (plain : e.isPlain .truth)
    (h : e.knownText? ns locals = some text) : e.isPlain .value := by
  have known := known?_of_knownText? h
  cases e with
  | and left right =>
    obtain ⟨b, hb, -⟩ := Truth.eq_bool_of_known? (by rw [← known, known?])
    cases hb
  | or left right =>
    obtain ⟨b, hb, -⟩ := Truth.eq_bool_of_known? (by rw [← known, known?])
    cases hb
  | _ => exact plain

theorem IsSound.of_isPlain {e : Expr} (undotted : e.Undotted) (plain : e.isPlain .truth) : e.IsSound := by
  intro ns locals context setting jumps calls value within he
  have fits := fits_of_eval within e undotted he
  have admits := fits.truth plain
  refine ⟨fun h => ?_, fun h => ?_, fun text h => ?_⟩
  · exact (h ▸ admits).eq_true
  · simpa using (h ▸ admits).eq_false
  · exact fits.known (isPlain_value_of_knownText? plain h) _ (known?_of_knownText? h)

/-! ### Misreadings -/

/-- An `and` or an `or` of two variables. -/
inductive Joint (a b : String) : Expr → Prop
  | and : Joint a b (.and (.var a) (.var b))
  | or : Joint a b (.or (.var a) (.var b))

/-- The least expressions of each kind that is not plain: a part of what a connective returns, the part
of that name, whether it is defined, and a part of a variable under a key with a dot. -/
inductive Misread : Expr → Prop
  | base {a b : String} {joint : Expr} (h : Joint a b joint) (ha : Template.isIdentifier a)
      (hb : Template.isIdentifier b) (key : String) : Misread (.lookup joint (.literal (.string key)))
  | key {a b x : String} {joint : Expr} (h : Joint a b joint) (ha : Template.isIdentifier a)
      (hb : Template.isIdentifier b) (hx : Template.isIdentifier x) (xa : x ≠ a) (xb : x ≠ b) :
      Misread (.lookup (.var x) joint)
  | target {a b : String} {joint : Expr} (h : Joint a b joint) (ha : Template.isIdentifier a)
      (hb : Template.isIdentifier b) : Misread (.isDefined joint)
  | dotted {a key : String} (ha : Template.isIdentifier a) (hk : '.' ∈ key.toList) :
      Misread (.lookup (.var a) (.literal (.string key)))

/-- For some namespace the truth that is known of the expression is the opposite of the truth of its value. -/
def Misjudged (e : Expr) : Prop :=
  ∃ ns value, (∀ setting jumps calls, eval setting jumps calls (.ofNamespace ns) e = .ok value) ∧
    e.truth ns [] = .ofBool !value.isTruthy

theorem Misjudged.not_isSound {e : Expr} (h : Misjudged e) : ¬ e.IsSound := by
  obtain ⟨ns, value, he, h⟩ := h
  intro sound
  have value_eq := he (.alone .english) (.within (.alone .english) 0) 0
  obtain ⟨holds, fails, -⟩ := sound (Context.within_ofNamespace ns) value_eq
  rw [h] at holds fails
  cases ht : value.isTruthy with
  | true => exact fails (by rw [ht]; rfl) ht
  | false => exact absurd (holds (by rw [ht]; rfl)) (by simp [ht])

theorem known?_var {name : String} (h : Template.isIdentifier name) :
    (Expr.var name).known? ns [] = some ((ns.get? name).getD .undefined) := by
  rw [known?, ns.at?_of_undotted (Template.dot_notMem_of_isIdentifier h)]
  rfl

section Joint

variable {a b : String} {joint : Expr} (h : Joint a b joint)
include h

/-- A connective of two variables of one value has that value. -/
theorem Joint.eval_eq (same : ns.get? a = ns.get? b) :
    eval setting jumps calls (.ofNamespace ns) joint = .ok ((ns.get? a).getD .undefined) := by
  have lookup (name : String) := (Context.within_ofNamespace ns).lookup (List.not_mem_nil (a := name))
  cases h <;> simp only [eval, lookup, ← same] <;>
    cases ht : ((ns.get? a).getD .undefined).isTruthy <;> simp [ht, bind, Except.bind, pure, Except.pure]

/-- All that is known of it is the truth of that value. -/
theorem Joint.known?_eq (ha : Template.isIdentifier a) (hb : Template.isIdentifier b)
    (same : ns.get? a = ns.get? b) :
    joint.known? ns [] = some (.bool ((ns.get? a).getD .undefined).isTruthy) := by
  cases h <;> rw [known?, known?_var ha, known?_var hb, ← same, Truth.ofKnown] <;>
    cases ((ns.get? a).getD .undefined).isTruthy <;> rfl

theorem Joint.path?_eq : joint.path? = none := by
  cases h <;> rfl

theorem Joint.isLocal_eq : joint.isLocal [] = false := by
  cases h <;> rfl

end Joint

theorem misjudged_base {a b key : String} {joint : Expr} (h : Joint a b joint)
    (ha : Template.isIdentifier a) (hb : Template.isIdentifier b) :
    Misjudged (.lookup joint (.literal (.string key))) := by
  let whole : Value := .map [(key, .int 1)]
  let ns := (Namespace.empty.insert a whole).insert b whole
  have ga : ns.get? a = some whole := by simp [ns, Namespace.get?_insert]
  have gb : ns.get? b = some whole := by simp [ns, Namespace.get?_insert]
  have part : whole.segment? key = some (.int 1) := by simp [whole, Value.segment?, Fields.find?]
  have same := ga.trans gb.symm
  refine ⟨ns, .int 1, fun setting jumps calls => ?_, ?_⟩
  · rw [eval, h.eval_eq same, ga]
    exact congrArg (fun found => Except.ok (found.getD .undefined)) part
  · have path : (Expr.lookup joint (.literal (.string key))).path? = none := by rw [path?, h.path?_eq]; rfl
    rw [truth, known?, h.isLocal_eq, path, h.known?_eq ha hb same, ga]
    rfl

theorem misjudged_key {a b x : String} {joint : Expr} (h : Joint a b joint)
    (ha : Template.isIdentifier a) (hb : Template.isIdentifier b) (hx : Template.isIdentifier x)
    (xa : x ≠ a) (xb : x ≠ b) : Misjudged (.lookup (.var x) joint) := by
  let key : Value := .string "key"
  let ns := ((Namespace.empty.insert x (.map [("key", .int 1)])).insert a key).insert b key
  have ga : ns.get? a = some key := by simp [ns, Namespace.get?_insert]
  have gb : ns.get? b = some key := by simp [ns, Namespace.get?_insert]
  have gx : ns.get? x = some (.map [("key", .int 1)]) := by simp [ns, Namespace.get?_insert, xa, xb]
  have same := ga.trans gb.symm
  refine ⟨ns, .int 1, fun setting jumps calls => ?_, ?_⟩
  · rw [eval, h.eval_eq same, ga, eval, (Context.within_ofNamespace ns).lookup List.not_mem_nil, gx]
    rfl
  · have path : (Expr.lookup (.var x) joint).path? = none := by cases h <;> rfl
    rw [truth, known?, path, h.known?_eq ha hb same, known?_var hx, ga, gx]
    rfl

theorem misjudged_target {a b : String} {joint : Expr} (h : Joint a b joint)
    (ha : Template.isIdentifier a) (hb : Template.isIdentifier b) :
    Misjudged (.isDefined joint) := by
  have same : Namespace.empty.get? a = Namespace.empty.get? b := rfl
  refine ⟨.empty, .bool false, fun setting jumps calls => ?_, ?_⟩
  · rw [eval, h.eval_eq same]
    rfl
  · rw [truth, known?, h.isLocal_eq, h.path?_eq, h.known?_eq ha hb same]
    rfl

/-- The dotted path goes through the segments of the key, and none of them has a dot. -/
theorem misjudged_dotted {a key : String} (ha : Template.isIdentifier a)
    (hk : '.' ∈ key.toList) : Misjudged (.lookup (.var a) (.literal (.string key))) := by
  let whole : Value := .map [(key, .int 1)]
  let ns := Namespace.empty.insert a whole
  have ga : ns.get? a = some whole := by simp [ns, Namespace.get?_insert]
  refine ⟨ns, .int 1, fun setting jumps calls => ?_, ?_⟩
  · simp only [eval, (Context.within_ofNamespace ns).lookup List.not_mem_nil, ga]
    simp [whole, Value.segment?, Value.text, Fields.find?, bind, Except.bind, pure, Except.pure]
  · have nowhere : ns.at? (a ++ "." ++ key) = none := by
      obtain ⟨first, rest, hs⟩ := List.exists_cons_of_ne_nil (Namespace.segments_ne_nil key)
      have : key ≠ first := by
        rintro rfl
        exact Namespace.dot_notMem_of_mem_segments (hs ▸ List.mem_cons_self) hk
      rw [Namespace.at?, Namespace.segments_cons (Template.dot_notMem_of_isIdentifier ha), hs]
      simp [ga, whole, Namespace.descend, Value.segment?, Fields.find?, this]
    have path : (Expr.lookup (.var a) (.literal (.string key))).path? = some (a ++ "." ++ key) := rfl
    rw [truth, known?, path]
    simp [isLocal, root?, nowhere, Truth.ofKnown, Value.isTruthy]

/-- The truth that is known of the least expressions that are not plain is wrong for some namespace. -/
theorem Misread.misjudged {e : Expr} (h : Misread e) : Misjudged e := by
  cases h with
  | base h ha hb => exact misjudged_base h ha hb
  | key h ha hb hx xa xb => exact misjudged_key h ha hb hx xa xb
  | target h ha hb => exact misjudged_target h ha hb
  | dotted ha hk => exact misjudged_dotted ha hk

theorem Misread.not_isSound {e : Expr} (h : Misread e) : ¬ e.IsSound :=
  h.misjudged.not_isSound

/-- An expression that was read is analysed soundly if it is plain, and what is not plain comes down to
misreadings. -/
theorem isSound_of_read {bound : Nat} {cursor after : Template.Cursor} {e : Expr}
    (read : Template.Parser.expression bound cursor = .ok (e, after)) :
    (e.isPlain .truth → e.IsSound) ∧ (Misread e → ¬ e.IsSound) :=
  have named : e.Named := Template.Parser.yields_expression bound read
  ⟨.of_isPlain named.undotted, Misread.not_isSound⟩

/-- A condition whose connectives stand for their truth. -/
theorem isSound_of_read_not_or :
    ∃ e after, Template.Parser.expression 5 ⟨"not (n or a.b)".toList, false⟩ = .ok (e, after) ∧
      e.isPlain .truth ∧ e.IsSound ∧ ¬ Misread e := by
  have plain : (Template.Parser.expression 5 ⟨"not (n or a.b)".toList, false⟩).toOption.map
      (fun read => read.1.isPlain .truth) = some true := by decide +kernel
  cases read : Template.Parser.expression 5 ⟨"not (n or a.b)".toList, false⟩ with
  | error fault => rw [read] at plain; cases plain
  | ok result =>
    obtain ⟨e, after⟩ := result
    rw [read] at plain
    have plain : e.isPlain .truth = true := Option.some.inj plain
    have sound := (isSound_of_read read).1 plain
    exact ⟨e, after, rfl, plain, sound, fun misread => (isSound_of_read read).2 misread sound⟩

/-- The part `k` of `a or b` is there, and what is known of it is the truth of a part of `true`. -/
theorem truth_of_operand_part :
    let ns : Namespace := .ofList [("a", .map [("k", .int 1)])]
    (Template.Parser.expression 5 ⟨"(a or b).k".toList, false⟩).toOption.map (fun (e, _) =>
      (e.truth ns [], (eval (.alone .english) (.within (.alone .english) 0) 0 (.ofNamespace ns) e).toOption.map
        Value.isTruthy)) = some (.false, some true) := by
  decide +kernel

end Expr

end Folio
