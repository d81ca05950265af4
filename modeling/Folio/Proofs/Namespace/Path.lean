import Folio.Namespace

/-! Dotted paths, segment by segment. A path that is continued by a segment leads to the part of that
name in whatever the path led to, as long as the segment has no dot of its own. -/
namespace Folio

open Text (splitOn)

theorem Text.splitOn_append_cons (separator : Char) (first rest : List Char) :
    splitOn separator (first ++ separator :: rest) =
      splitOn separator first ++ splitOn separator rest := by
  induction first with
  | nil => simp [splitOn]
  | cons c first ih =>
    by_cases h : c = separator
    · simp [splitOn, h, ih]
    · obtain ⟨part, parts, hp⟩ := List.exists_cons_of_ne_nil (splitOn_ne_nil separator first)
      simp [splitOn, h, ih, hp]

theorem Text.separator_notMem_of_mem_splitOn {separator : Char} {text part : List Char}
    (h : part ∈ splitOn separator text) : separator ∉ part := by
  fun_induction splitOn separator text generalizing part with
  | case1 => simp_all
  | case2 rest ih =>
    rcases List.mem_cons.1 h with rfl | h
    · exact List.not_mem_nil
    · exact ih h
  | case3 c rest hc e ih => simpa [List.mem_singleton.1 h] using Ne.symm hc
  | case4 c rest hc first parts e ih =>
    rcases List.mem_cons.1 h with rfl | h
    · rw [List.mem_cons, not_or]
      exact ⟨Ne.symm hc, ih (e ▸ List.mem_cons_self)⟩
    · exact ih (e ▸ List.mem_cons_of_mem _ h)

/-- The numeral of an integer is digits with a sign. -/
theorem Decimal.dot_notMem_ofInt (n : Int) : '.' ∉ Decimal.ofInt n := by
  have digits : '.' ∉ Nat.toDigits 10 n.natAbs := fun h => by
    have := Nat.isDigit_of_mem_toDigits (by decide) (by decide) h
    exact absurd this (by decide)
  rw [Decimal.ofInt]
  split
  · rw [List.mem_cons, not_or]
    exact ⟨by decide, digits⟩
  · exact digits

namespace Namespace

theorem segments_of_undotted {name : String} (h : '.' ∉ name.toList) : segments name = [name] := by
  rw [segments, Text.splitOn_eq_singleton h]
  simp

theorem segments_join (path rest : String) :
    segments (path ++ "." ++ rest) = segments path ++ segments rest := by
  have text : (path ++ "." ++ rest).toList = path.toList ++ '.' :: rest.toList := by simp
  rw [segments, text, Text.splitOn_append_cons, List.map_append]
  rfl

theorem segments_dot (path : String) {segment : String} (h : '.' ∉ segment.toList) :
    segments (path ++ "." ++ segment) = segments path ++ [segment] := by
  rw [segments_join, segments_of_undotted h]

theorem segments_cons {name : String} (h : '.' ∉ name.toList) (rest : String) :
    segments (name ++ "." ++ rest) = name :: segments rest := by
  rw [segments_join, segments_of_undotted h]
  rfl

theorem dot_notMem_of_mem_segments {path segment : String} (h : segment ∈ segments path) :
    '.' ∉ segment.toList := by
  obtain ⟨part, hp, rfl⟩ := List.mem_map.1 h
  simpa using Text.separator_notMem_of_mem_splitOn hp

theorem segments_ne_nil (path : String) : segments path ≠ [] := by
  simp [segments, Text.splitOn_ne_nil]

theorem at?_of_undotted (ns : Namespace) {name : String} (h : '.' ∉ name.toList) :
    ns.at? name = ns.get? name := by
  rw [at?, segments_of_undotted h]
  simp [descend]

theorem at?_dot (ns : Namespace) (path : String) {segment : String} (h : '.' ∉ segment.toList) :
    ns.at? (path ++ "." ++ segment) = (ns.at? path).bind (fun value => value.segment? segment) := by
  obtain ⟨name, rest, hp⟩ := List.exists_cons_of_ne_nil (segments_ne_nil path)
  simp [at?, segments_dot path h, hp, descend, List.foldlM_append, Option.bind_assoc]

/-- What stands at a longer path is a part of what stands at the shorter one, `undefined` where either
leads nowhere. -/
theorem getD_at?_dot (ns : Namespace) (path : String) {segment : String}
    (h : '.' ∉ segment.toList) :
    (ns.at? (path ++ "." ++ segment)).getD .undefined =
      ((((ns.at? path).getD .undefined).segment? segment)).getD .undefined := by
  rw [at?_dot ns path h]
  cases ns.at? path <;> rfl

/-- What a path leads to depends on the variable at its root only. -/
theorem at?_congr {ns other : Namespace} {path : String}
    (agree : ∀ name ∈ (segments path).head?, ns.get? name = other.get? name) :
    ns.at? path = other.at? path := by
  obtain ⟨name, rest, hp⟩ := List.exists_cons_of_ne_nil (segments_ne_nil path)
  have same : ns.get? name = other.get? name := agree name (by rw [hp]; rfl)
  rw [at?, at?, hp]
  simp only [same]

/-- What a path leads to is found in the value of its first name, as nothing is found in `undefined`. -/
theorem getD_at?_of_segments (ns : Namespace) {path name : String} {rest : List String}
    (h : segments path = name :: rest) :
    (ns.at? path).getD .undefined = (descend ((ns.get? name).getD .undefined) rest).getD .undefined := by
  simp only [at?, h]
  cases ns.get? name with
  | some value => rfl
  | none =>
    cases rest with
    | nil => rfl
    | cons segment rest => rfl

theorem hasValueAt_eq (ns : Namespace) (path : String) :
    ns.hasValueAt path = !((ns.at? path).getD .undefined).isUndefined := by
  rw [hasValueAt]
  cases ns.at? path <;> rfl

end Namespace

end Folio
