import Folio.FileTree
import Folio.Proofs.Namespace.Path

/-! Joined paths. A relative path that is joined to a base puts its components behind those of the base, and, if it has
no mark for a parent, it leads on in a tree of files from wherever the base leads to. -/
namespace Folio

/-- A text whose first part is empty is empty itself or starts with the separator. -/
theorem Text.eq_of_splitOn_eq_nil_cons {separator : Char} {text : List Char} {parts : List (List Char)}
    (h : splitOn separator text = [] :: parts) :
    text = [] ∨ ∃ rest, text = separator :: rest ∧ parts = splitOn separator rest := by
  cases text with
  | nil => exact .inl rfl
  | cons c rest =>
    by_cases same : c = separator
    · rw [splitOn, if_pos same] at h
      exact .inr ⟨rest, by rw [same], (List.cons.inj h).2.symm⟩
    · obtain ⟨part, more, split⟩ := List.exists_cons_of_ne_nil (splitOn_ne_nil separator rest)
      rw [splitOn, if_neg same, split] at h
      cases h

namespace Path

variable {base name path : String}

/-- Between a base and what is joined to it there is one slash, unless the base is empty. -/
theorem join_eq (base : String) (relative : isAbsolute name = false) :
    base = "" ∧ join base name = name ∨ (∃ front, base = front ++ "/") ∧ join base name = base ++ name ∨
      base ≠ "" ∧ join base name = base ++ "/" ++ name := by
  by_cases empty : base = ""
  · exact .inl ⟨empty, by simp [join, empty]⟩
  · have whole : join base name = if base.toList.getLast? = some '/' then base ++ name else base ++ "/" ++ name := by
      simp [join, relative, empty]
    split at whole
    · rename_i slash
      obtain ⟨front, split⟩ := List.getLast?_eq_some_iff.1 slash
      exact .inr (.inl ⟨⟨.ofList front, String.toList_inj.1 (by simp [split])⟩, whole⟩)
    · exact .inr (.inr ⟨empty, whole⟩)

theorem isAbsolute_join (relative : isAbsolute name = false) : isAbsolute (join base name) = isAbsolute base := by
  obtain ⟨rfl, joined⟩ | ⟨⟨front, rfl⟩, joined⟩ | ⟨some, joined⟩ := join_eq base relative
  · rw [joined, relative]
    rfl
  · simp [joined, isAbsolute]
  · obtain ⟨c, rest, chars⟩ := List.exists_cons_of_ne_nil (mt String.toList_eq_nil_iff.1 some)
    simp [joined, isAbsolute, chars]

/-- A path that is joined to a base is put behind it. -/
theorem exists_join_eq_append (base : String) (relative : isAbsolute name = false) :
    ∃ between : String, (between = "" ∨ between = "/") ∧ join base name = base ++ between ++ name := by
  obtain ⟨rfl, joined⟩ | ⟨-, joined⟩ | ⟨-, joined⟩ := join_eq base relative
  · exact ⟨"", .inl rfl, by simp [joined]⟩
  · exact ⟨"", .inl rfl, by simp [joined]⟩
  · exact ⟨"/", .inr rfl, joined⟩

/-! ### Components -/

/-- The components that the parts of a path stand for by themselves. -/
def named (path : String) : List Component :=
  (Text.splitOn '/' path.toList).filterMap component?

/-- What the start of a path that is not empty stands for: the root, the mark for here, or nothing. -/
def start (path : String) : List Component :=
  match (Text.splitOn '/' path.toList).head? with
  | some [] => [.root]
  | some ['.'] => [.current]
  | _ => []

theorem components_eq (filled : path ≠ "") : components path = start path ++ named path := by
  have several {parts : List (List Char)} (h : Text.splitOn '/' path.toList = [] :: parts) : parts ≠ [] := by
    obtain empty | ⟨rest, -, rfl⟩ := Text.eq_of_splitOn_eq_nil_cons h
    · exact absurd (String.toList_eq_nil_iff.1 empty) filled
    · exact Text.splitOn_ne_nil '/' rest
  obtain ⟨part, parts, split⟩ := List.exists_cons_of_ne_nil (Text.splitOn_ne_nil '/' path.toList)
  rw [components, start, named, split, List.head?_cons]
  by_cases root : part = []
  · subst root
    obtain ⟨next, more, rfl⟩ := List.exists_cons_of_ne_nil (several split)
    rfl
  by_cases here : part = ['.']
  · subst here
    rfl
  · simp [root, here]

theorem start_append (front rest : String) : start (front ++ "/" ++ rest) = start front := by
  have apart : (front ++ "/" ++ rest).toList = front.toList ++ '/' :: rest.toList := by simp
  obtain ⟨part, parts, split⟩ := List.exists_cons_of_ne_nil (Text.splitOn_ne_nil '/' front.toList)
  rw [start, start, apart, Text.splitOn_append_cons, split, List.cons_append, List.head?_cons, List.head?_cons]

theorem named_append (front rest : String) : named (front ++ "/" ++ rest) = named front ++ named rest := by
  have apart : (front ++ "/" ++ rest).toList = front.toList ++ '/' :: rest.toList := by simp
  rw [named, apart, Text.splitOn_append_cons, List.filterMap_append]
  rfl

theorem components_append (front rest : String) :
    components (front ++ "/" ++ rest) = start front ++ named front ++ named rest := by
  rw [components_eq (by simp), start_append, named_append, List.append_assoc]

/-- A mark for here in front is all that the parts of a relative path do not show by themselves. -/
theorem components_of_relative (relative : isAbsolute name = false) :
    components name = named name ∨ components name = .current :: named name := by
  by_cases filled : name = ""
  · subst filled
    exact .inl rfl
  rw [components_eq filled, start]
  split
  · rename_i first
    obtain ⟨parts, split⟩ := List.head?_eq_some_iff.1 first
    obtain empty | ⟨rest, text, -⟩ := Text.eq_of_splitOn_eq_nil_cons split
    · exact absurd (String.toList_eq_nil_iff.1 empty) filled
    · simp [isAbsolute, text] at relative
  · exact .inr rfl
  · exact .inl rfl

theorem root_mem_components (absolute : isAbsolute name) : .root ∈ components name := by
  obtain ⟨rest, text⟩ := List.head?_eq_some_iff.1 (of_decide_eq_true absolute)
  have filled : name ≠ "" := fun empty => by simp [empty] at text
  rw [components_eq filled, start, text, Text.splitOn, if_pos rfl]
  exact List.mem_cons_self

theorem mem_components_of_mem_named {c : Component} (m : c ∈ named name) : c ∈ components name := by
  by_cases filled : name = ""
  · subst filled
    exact m
  · rw [components_eq filled]
    exact List.mem_append_right _ m

/-- The path leads to where it starts or further in. -/
def IsInner (name : String) : Prop :=
  ∀ c ∈ components name, c.isInner

theorem IsInner.relative (h : IsInner name) : isAbsolute name = false :=
  Bool.eq_false_iff.2 fun absolute => by cases h .root (root_mem_components absolute)

theorem IsInner.ne_parent (h : IsInner name) : ∀ part ∈ Text.splitOn '/' name.toList, part ≠ ['.', '.'] := by
  rintro part m rfl
  have here : .parent ∈ named name := List.mem_filterMap.2 ⟨_, m, rfl⟩
  cases h .parent (mem_components_of_mem_named here)

/-- The components of a path that is joined to a base stand behind those of the base, apart from a mark for here. -/
theorem components_join (relative : isAbsolute name = false) (filled : base ≠ "") :
    components (join base name) = components base ++ named name := by
  obtain ⟨empty, -⟩ | ⟨⟨front, rfl⟩, joined⟩ | ⟨-, joined⟩ := join_eq base relative
  · exact absurd empty filled
  · have alone := components_append front ""
    rw [String.append_empty] at alone
    rw [joined, components_append, alone, show named "" = [] from rfl, List.append_nil]
  · rw [joined, components_append, components_eq filled]

end Path

namespace FileTree

variable {parts more : List (List Char)} {base name : String}

/-- Without marks for parents it does not matter how one came to where the way starts. -/
theorem walk_of_inner (inner : ∀ part ∈ parts, part ≠ ['.', '.']) (around around' : List FileTree) (here : FileTree) :
    walk around here parts = walk around' here parts := by
  induction parts generalizing around around' here with
  | nil => rfl
  | cons part parts ih =>
    have h : Path.component? part = none ∨ Path.component? part = some (.name part) := by
      simp only [Path.component?, if_neg (inner part List.mem_cons_self)]
      split <;> simp
    have ih := ih fun part m => inner part (List.mem_cons_of_mem _ m)
    cases here with
    | file => rfl
    | directory entries =>
      obtain none | name := h
      · simp only [walk, none]
        exact ih ..
      · simp only [walk, name]
        split
        · rfl
        · split
          · exact ih ..
          · rfl

/-- A way leads on from where its front part leads to. -/
theorem walk_append (inner : ∀ part ∈ more, part ≠ ['.', '.']) (around : List FileTree) (here : FileTree)
    (parts : List (List Char)) :
    walk around here (parts ++ more) = (walk around here parts).bind (walk [] · more) := by
  fun_induction walk around here parts with
  | case1 around here => exact walk_of_inner inner around [] here
  | case2 => rfl
  | case3 around first parts entries name named long => simp only [List.cons_append, walk, named, long, if_true]; rfl
  | case4 around first parts entries name named short next found ih =>
    simp only [List.cons_append, walk, named, short, if_false, found, ih]
  | case5 around first parts entries name named short missing =>
    simp only [List.cons_append, walk, named, short, if_false, missing]; rfl
  | case6 around first parts entries component other named ih => simp only [List.cons_append, walk, ih, named]
  | case7 around first parts entries empty ih => simp only [List.cons_append, walk, empty, ih]

/-- An empty part leads nowhere else, but not on from a file, as what follows it would not either. -/
theorem walk_nil_cons (filled : parts ≠ []) (around : List FileTree) (here : FileTree) :
    walk around here ([] :: parts) = walk around here parts := by
  obtain ⟨part, parts, rfl⟩ := List.exists_cons_of_ne_nil filled
  cases here with
  | file => rfl
  | directory => rfl

/-- A joined path leads on from where its base leads to. -/
theorem walk_join (h : Path.IsInner name) (around : List FileTree) (here : FileTree) (base : String) :
    walk around here (Text.splitOn '/' (Path.join base name).toList) =
      (walk around here (Text.splitOn '/' base.toList)).bind (walk [] · (Text.splitOn '/' name.toList)) := by
  have filled := Text.splitOn_ne_nil '/' name.toList
  have inner : ∀ part ∈ [] :: Text.splitOn '/' name.toList, part ≠ ['.', '.'] :=
    List.forall_mem_cons.2 ⟨by decide, h.ne_parent⟩
  obtain ⟨rfl, joined⟩ | ⟨⟨front, rfl⟩, joined⟩ | ⟨-, joined⟩ := Path.join_eq base h.relative
  · rw [joined, ← walk_append h.ne_parent]
    exact (walk_nil_cons filled around here).symm
  · have apart : (front ++ "/" ++ name).toList = front.toList ++ '/' :: name.toList := by simp
    have last : (front ++ "/").toList = front.toList ++ '/' :: [] := by simp
    rw [joined, apart, last, Text.splitOn_append_cons, Text.splitOn_append_cons, ← walk_append h.ne_parent,
      List.append_assoc, walk_append h.ne_parent, Text.splitOn, List.singleton_append, walk_append inner]
    -- The empty part is the end of the base, behind its last slash.
    simp only [walk_nil_cons filled]
  · have apart : (base ++ "/" ++ name).toList = base.toList ++ '/' :: name.toList := by simp
    rw [joined, apart, Text.splitOn_append_cons, walk_append h.ne_parent]

/-- What is at a joined path is found from where its base leads to, as long as the path is not too long. -/
theorem at?_join (files : FileTree) (h : Path.IsInner name) (zero : '\x00' ∉ name.toList)
    (short : (Path.join base name).utf8ByteSize < maxPathBytes) :
    files.at? (Path.join base name) = (files.at? base).bind (walk [] · (Text.splitOn '/' name.toList)) := by
  obtain ⟨between, slash, joined⟩ := Path.exists_join_eq_append base h.relative
  have same : (Path.join base name).toList.contains '\x00' = base.toList.contains '\x00' := by
    rcases slash with rfl | rfl <;> simp [joined, zero]
  have size : base.utf8ByteSize ≤ (Path.join base name).utf8ByteSize := by
    simp only [joined, String.utf8ByteSize_append]
    omega
  rw [at?, at?, Path.isAbsolute_join h.relative, same, if_neg (Nat.not_le.2 short),
    if_neg (Nat.not_le.2 (Nat.lt_of_le_of_lt size short))]
  split
  · rfl
  · exact walk_join h [] _ base

/-- Trees that are alike where the base leads to are alike where the joined path does. -/
theorem at?_join_congr {files files' : FileTree} (h : Path.IsInner name) (same : files.at? base = files'.at? base) :
    files.at? (Path.join base name) = files'.at? (Path.join base name) := by
  by_cases zero : '\x00' ∈ (Path.join base name).toList
  · simp [at?, zero]
  by_cases long : maxPathBytes ≤ (Path.join base name).utf8ByteSize
  · simp [at?, long]
  have without : '\x00' ∉ name.toList := by
    obtain ⟨between, -, joined⟩ := Path.exists_join_eq_append base h.relative
    exact fun m => zero (by simp [joined, m])
  rw [at?_join files h without (Nat.not_le.1 long), at?_join files' h without (Nat.not_le.1 long), same]

end FileTree

end Folio
