import Folio.Config.Project
import Folio.Proofs.Namespace.Layers
import Folio.Proofs.Path.Joining

/-! Configurations laid over one another. A configuration is what it has for each setting, and the upper one decides
each setting that it has; so layers may be grouped, a layer without settings changes nothing, and no layer changes one
that is the same. A project that is its own root is then configured by the root alone, by whatever path it is given:
where the paths are not seen to be the same, the file is read twice and laid over itself. -/
namespace Folio

namespace Config

/-! ### Settings -/

/-- The settings, with those of pages and web sites and each variable of the frontmatter as settings of their own. -/
inductive Setting where
  | template
  | titlePage
  | theme
  | pageSize
  | pageMargin
  | content
  | chapters
  | source
  | proposal
  | toc
  | dateLocale
  | frontmatter (name : String)
  | output
  | multipage
  | splitOn

/-- What a setting is given as. -/
def Setting.Kind : Setting → Type
  | .template | .pageSize | .pageMargin | .content | .dateLocale | .output => String
  | .titlePage | .proposal | .toc | .multipage => Bool
  | .theme => Theme
  | .chapters | .source => List String
  | .frontmatter _ => Value
  | .splitOn => SplitOn

def get? (config : Config) : (setting : Setting) → Option setting.Kind
  | .template => config.template
  | .titlePage => config.titlePage
  | .theme => config.theme
  | .pageSize => config.page.size
  | .pageMargin => config.page.margin
  | .content => config.content
  | .chapters => config.chapters
  | .source => config.source
  | .proposal => config.proposal
  | .toc => config.toc
  | .dateLocale => config.dateLocale
  | .frontmatter name => config.frontmatter.get? name
  | .output => config.output
  | .multipage => config.web.multipage
  | .splitOn => config.web.splitOn

@[ext] theorem ext_get? {a b : Config} (h : ∀ setting, a.get? setting = b.get? setting) : a = b := by
  have page : a.page = b.page := (PageConfig.mk.injEq ..).mpr ⟨h .pageSize, h .pageMargin⟩
  have web : a.web = b.web := (WebConfig.mk.injEq ..).mpr ⟨h .multipage, h .splitOn⟩
  have frontmatter : a.frontmatter = b.frontmatter := Namespace.ext_get? fun name => h (.frontmatter name)
  exact (Config.mk.injEq ..).mpr ⟨h .template, h .titlePage, h .theme, page, h .content, h .chapters, h .source,
    h .proposal, h .toc, h .dateLocale, frontmatter, h .output, web⟩

@[simp] theorem get?_empty (setting : Setting) : empty.get? setting = none := by
  cases setting <;> rfl

/-- The upper configuration decides the settings that it has, and the other one the rest. -/
@[simp] theorem get?_merge (base upper : Config) (setting : Setting) :
    (base.merge upper).get? setting = (upper.get? setting).or (base.get? setting) := by
  cases setting with
  | frontmatter name => exact Namespace.get?_merge base.frontmatter upper.frontmatter name
  | _ => rfl

/-! ### Layers -/

theorem merge_assoc (a b c : Config) : (a.merge b).merge c = a.merge (b.merge c) := by
  ext1 setting
  simp only [get?_merge, Option.or_assoc]

theorem empty_merge (a : Config) : empty.merge a = a := by
  ext1 setting
  rw [get?_merge, get?_empty, Option.or_none]

theorem merge_empty (a : Config) : a.merge empty = a := by
  ext1 setting
  rw [get?_merge, get?_empty, Option.none_or]

theorem merge_self (a : Config) : a.merge a = a := by
  ext1 setting
  rw [get?_merge, Option.or_self]

/-! ### Projects -/

variable {files : FileTree} {root project : String}

theorem isInner_fileName : Path.IsInner fileName := by
  unfold Path.IsInner
  decide

/-- What is at the file of a project is found from where the path of the project leads to. -/
theorem at?_join_fileName (short : (Path.join project fileName).utf8ByteSize < FileTree.maxPathBytes) :
    files.at? (Path.join project fileName) =
      (files.at? project).bind (FileTree.walk [] · (Text.splitOn '/' fileName.toList)) :=
  FileTree.at?_join files isInner_fileName (by decide) short

theorem parse_eq_ok_iff {text path : String} {config : Config} :
    parse text path = .ok config ↔ (Toml.parse? text).bind Toml.config? = some config := by
  unfold parse
  cases (Toml.parse? text).bind Toml.config? <;> simp

/-- What is read does not depend on the path that leads to the file. -/
theorem read_of_at?_eq {config : Config}
    (same : files.at? (Path.join project fileName) = files.at? (Path.join root fileName))
    (h : read files root = .ok config) : read files project = .ok config := by
  have texts : files.readIfPresent (Path.join project fileName) = files.readIfPresent (Path.join root fileName) := by
    simp only [FileTree.readIfPresent, FileTree.read, same]
  rw [read] at h ⊢
  rw [texts]
  generalize files.readIfPresent (Path.join root fileName) = contents at h ⊢
  obtain error | (_ | text) := contents
  · cases h
  · exact h
  · exact parse_eq_ok_iff.2 (parse_eq_ok_iff.1 h)

/-- A configuration is not read where there is no room for the name of its file. -/
theorem lt_of_read {config : Config} (h : read files root = .ok config) :
    (Path.join root fileName).utf8ByteSize < FileTree.maxPathBytes := by
  refine Nat.not_le.1 fun long => ?_
  have unread : ∃ error, files.readIfPresent (Path.join root fileName) = .error error := by
    rw [FileTree.readIfPresent, FileTree.read, FileTree.at?, if_pos long]
    by_cases zero : (Path.join root fileName).toList.contains '\x00'
    · rw [if_pos zero]
      exact ⟨_, rfl⟩
    · rw [if_neg zero]
      exact ⟨_, rfl⟩
  obtain ⟨error, unread⟩ := unread
  rw [read, unread] at h
  cases h

/-- The project is the root under a path of its own: the two are seen to be the same, or the path of the project leads
to where that of the root does and leaves room for the name of a file. -/
def IsRoot (files : FileTree) (root project : String) : Prop :=
  isSameDirectory project root = true ∨
    files.at? project = files.at? root ∧ (Path.join project fileName).utf8ByteSize < FileTree.maxPathBytes

theorem readProject_of_isRoot (h : IsRoot files root project) :
    readProject files root (some project) = readProject files root none := by
  rw [readProject, readProject]
  cases base : read files root with
  | error => rfl
  | ok config =>
    obtain seen | ⟨same, short⟩ := h
    · exact if_pos seen
    · have again : read files project = .ok config := by
        refine read_of_at?_eq ?_ base
        rw [at?_join_fileName short, at?_join_fileName (lt_of_read base), same]
      show (if isSameDirectory project root then _ else _) = _
      split
      · rfl
      · rw [again]
        exact congrArg Except.ok (merge_self config)

end Config

end Folio
