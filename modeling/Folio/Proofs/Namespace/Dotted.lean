import Folio.Proofs.Namespace.Path
import Folio.Proofs.Template.Identifier

/-! Dotted paths and their segments. What is joined by dots is split again as long as no segment has a dot of its own,
and a path with a value has one at every shorter path that it continues. A namespace with a single path has values on
that path only. -/
namespace Folio

namespace Namespace

/-- The path of a name with segments behind it, each behind a dot. -/
def dotted (name : String) (rest : List String) : String :=
  rest.foldl (fun path segment => path ++ "." ++ segment) name

@[simp] theorem dotted_nil (name : String) : dotted name [] = name := rfl

theorem dotted_cons (name segment : String) (rest : List String) :
    dotted name (segment :: rest) = dotted (name ++ "." ++ segment) rest := rfl

theorem dotted_append (name : String) (rest more : List String) :
    dotted name (rest ++ more) = dotted (dotted name rest) more :=
  List.foldl_append

theorem toList_dotted (name : String) (rest : List String) :
    (dotted name rest).toList = name.toList ++ rest.flatMap (fun segment => '.' :: segment.toList) := by
  induction rest generalizing name with
  | nil => simp
  | cons segment rest ih => simp [dotted_cons, ih]

theorem segments_dotted (name : String) (rest : List String) :
    segments (dotted name rest) = segments name ++ rest.flatMap segments := by
  induction rest generalizing name with
  | nil => simp
  | cons segment rest ih => rw [dotted_cons, ih, segments_join, List.append_assoc, List.flatMap_cons]

theorem flatMap_segments_of_undotted {keys : List String} (h : ∀ key ∈ keys, '.' ∉ key.toList) :
    keys.flatMap segments = keys := by
  induction keys with
  | nil => rfl
  | cons key keys ih =>
    rw [List.forall_mem_cons] at h
    rw [List.flatMap_cons, segments_of_undotted h.1, ih h.2]
    rfl

/-- Splitting undoes joining unless a segment has a dot of its own. -/
theorem segments_dotted_of_undotted {name : String} {rest : List String}
    (h : ∀ segment ∈ name :: rest, '.' ∉ segment.toList) : segments (dotted name rest) = name :: rest := by
  rw [segments_dotted, ← List.flatMap_cons, flatMap_segments_of_undotted h]

/-- Keys of which one has a dot are taken for other segments than they are, whatever comes behind. -/
theorem not_flatMap_segments_prefix {keys : List String} {key : String} (m : key ∈ keys) (dot : '.' ∈ key.toList) :
    ¬ keys.flatMap segments <+: keys := by
  intro start
  have long : ∀ keys : List String, keys.length ≤ (keys.flatMap segments).length := by
    intro keys
    induction keys with
    | nil => exact Nat.le_refl 0
    | cons key keys ih =>
      have := List.length_pos_iff.2 (segments_ne_nil key)
      rw [List.flatMap_cons, List.length_append, List.length_cons]
      omega
  have same := start.eq_of_length (Nat.le_antisymm start.length_le (long keys))
  rw [← same] at m
  obtain ⟨other, -, segment⟩ := List.mem_flatMap.1 m
  exact dot_notMem_of_mem_segments segment dot

theorem descend_append (value : Value) (path more : List String) :
    descend value (path ++ more) = (descend value path).bind (descend · more) :=
  List.foldlM_append

/-- A path with a value has one wherever it stops on its way. -/
theorem hasValueAt_of_segments_prefix {ns : Namespace} {path stop : String} (h : segments stop <+: segments path)
    (value : ns.hasValueAt path) : ns.hasValueAt stop := by
  obtain ⟨more, longer⟩ := h
  obtain ⟨name, inner, hs⟩ := List.exists_cons_of_ne_nil (segments_ne_nil stop)
  rw [hs, List.cons_append] at longer
  rw [hasValueAt_eq, getD_at?_of_segments ns longer.symm, descend_append] at value
  rw [hasValueAt_eq, getD_at?_of_segments ns hs]
  cases found : descend ((ns.get? name).getD .undefined) inner with
  | none =>
    rw [found] at value
    exact absurd value nofun
  | some there =>
    cases there with
    | undefined =>
      rw [found] at value
      cases more <;> exact absurd value nofun
    | _ => rfl

theorem hasValueAt_of_dotted {ns : Namespace} {path : String} {rest : List String}
    (h : ns.hasValueAt (dotted path rest)) : ns.hasValueAt path :=
  hasValueAt_of_segments_prefix (segments_dotted path rest ▸ List.prefix_append ..) h

/-! ### Namespaces with a single path -/

/-- The value in which the keys lead to the number one, each through a map with no other key. -/
def nested : List String → Value
  | [] => .int 1
  | key :: keys => .map [(key, nested keys)]

theorem isUndefined_nested (keys : List String) : (nested keys).isUndefined = false := by
  cases keys <;> rfl

/-- A map is written in braces. -/
theorem text_nested_ne (key : String) (keys : List String) : (nested (key :: keys)).text ≠ "1" := by
  intro same
  rw [nested, Value.text] at same
  simpa using congrArg (fun text : String => text.toList.head?) same

theorem descend_nested (keys path : List String) :
    descend (nested keys) path = if path <+: keys then some (nested (keys.drop path.length)) else none := by
  induction path generalizing keys with
  | nil => simp [descend]
  | cons segment path ih =>
    cases keys with
    | nil => simp [descend, nested, Value.segment?]
    | cons key keys =>
      by_cases same : key = segment
      · subst same
        simpa [descend, nested, Value.segment?, Fields.find?] using ih keys
      · simp [descend, nested, Value.segment?, Fields.find?, same, Ne.symm same]

/-- The namespace in which a name and the keys behind it lead to the number one, and which has nothing else. -/
def single (name : String) (keys : List String) : Namespace :=
  empty.insert name (nested keys)

theorem get?_single (name : String) (keys : List String) (other : String) :
    (single name keys).get? other = if other = name then some (nested keys) else none :=
  get?_insert ..

theorem at?_single (name : String) (keys : List String) (path : String) : (single name keys).at? path =
    if segments path <+: name :: keys then some (nested ((name :: keys).drop (segments path).length)) else none := by
  obtain ⟨first, rest, hp⟩ := List.exists_cons_of_ne_nil (segments_ne_nil path)
  simp only [at?, hp, get?_single, List.cons_prefix_cons, List.length_cons, List.drop_succ_cons]
  by_cases same : first = name
  · simp [same, descend_nested]
  · simp [same]

theorem hasValueAt_single (name : String) (keys : List String) (path : String) :
    (single name keys).hasValueAt path = true ↔ segments path <+: name :: keys := by
  rw [hasValueAt, at?_single]
  split
  · rename_i start
    simp [start, isUndefined_nested]
  · rename_i start
    simp [start]

end Namespace

/-! ### Names and indices -/

/-- A text of one digit or more. -/
def isIndex (text : String) : Bool :=
  text.toList.all Char.isDigit && !text.isEmpty

/-- What stands behind a dot: a name or an index. -/
inductive Segment where
  | name (text : String) (proper : Template.isIdentifier text)
  | index (digits : String) (proper : isIndex digits)

namespace Segment

def text : Segment → String
  | .name text _ => text
  | .index digits _ => digits

def isNumber : Segment → Bool
  | .name .. => false
  | .index .. => true

theorem isDigit_of_isIndex {digits : String} (h : isIndex digits) : ∀ c ∈ digits.toList, c.isDigit = true := by
  rw [isIndex, Bool.and_eq_true, List.all_eq_true] at h
  exact h.1

theorem ne_nil_of_isIndex {digits : String} (h : isIndex digits) : digits.toList ≠ [] := by
  rw [isIndex, Bool.and_eq_true] at h
  intro none
  simp [String.toList_eq_nil_iff.1 none] at h

theorem dot_notMem_text (segment : Segment) : '.' ∉ segment.text.toList := by
  cases segment with
  | name text proper => exact Template.dot_notMem_of_isIdentifier proper
  | index digits proper => exact fun m => absurd (isDigit_of_isIndex proper '.' m) (by decide)

/-- The text of segments, each behind its dot. -/
def written (segments : List Segment) : List Char :=
  segments.flatMap (fun segment => '.' :: segment.text.toList)

theorem written_cons (segment : Segment) (segments : List Segment) :
    written (segment :: segments) = '.' :: (segment.text.toList ++ written segments) :=
  List.flatMap_cons

theorem length_le_written (segments : List Segment) : segments.length ≤ (written segments).length := by
  induction segments with
  | nil => exact Nat.le_refl 0
  | cons segment segments ih =>
    rw [written_cons, List.length_cons, List.length_cons, List.length_append]
    omega

end Segment

/-- A dotted path: a name with segments behind it. -/
structure DottedPath where
  root : String
  proper : Template.isIdentifier root
  rest : List Segment

namespace DottedPath

variable (path : DottedPath)

def text : String :=
  Namespace.dotted path.root (path.rest.map Segment.text)

/-- The text that shows what stands at the path. -/
def output : String :=
  "\x7b\x7b " ++ path.text ++ " \x7d\x7d"

theorem toList_text : path.text.toList = path.root.toList ++ Segment.written path.rest := by
  rw [text, Namespace.toList_dotted, List.flatMap_map]
  rfl

/-- The segments of a path with the same root are those that it is put together from. -/
theorem segments_dotted (rest : List Segment) :
    Namespace.segments (Namespace.dotted path.root (rest.map Segment.text)) = path.root :: rest.map Segment.text := by
  refine Namespace.segments_dotted_of_undotted ?_
  rw [List.forall_mem_cons, List.forall_mem_map]
  exact ⟨Template.dot_notMem_of_isIdentifier path.proper, fun segment _ => segment.dot_notMem_text⟩

theorem segments_text : Namespace.segments path.text = path.root :: path.rest.map Segment.text :=
  path.segments_dotted path.rest

end DottedPath

end Folio
