import Folio.Error
import Folio.Namespace
import Folio.Toml.Document

/-! Configurations of projects. Every setting may be absent; laying one configuration over another takes
each setting from the upper one where it is there, and lays page, web and frontmatter settings over
one another one by one. -/
namespace Folio

inductive Theme where
  | light
  | dark
  deriving DecidableEq, Repr, Inhabited

def Theme.name : Theme → String
  | .light => "light"
  | .dark => "dark"

def Theme.ofName? : String → Option Theme
  | "light" => some .light
  | "dark" => some .dark
  | _ => none

/-- Where a new page of a web site begins. -/
inductive SplitOn where
  | chapters
  | h1
  | both
  deriving DecidableEq, Repr

def SplitOn.name : SplitOn → String
  | .chapters => "chapters"
  | .h1 => "h1"
  | .both => "both"

def SplitOn.ofName? : String → Option SplitOn
  | "chapters" => some .chapters
  | "h1" => some .h1
  | "both" => some .both
  | _ => none

structure PageConfig where
  size : Option String
  margin : Option String

structure WebConfig where
  multipage : Option Bool
  splitOn : Option SplitOn

structure Config where
  template : Option String
  titlePage : Option Bool
  theme : Option Theme
  page : PageConfig
  content : Option String
  chapters : Option (List String)
  source : Option (List String)
  proposal : Option Bool
  toc : Option Bool
  dateLocale : Option String
  frontmatter : Namespace
  output : Option String
  web : WebConfig

namespace Config

/-- No setting is there. -/
def empty : Config where
  template := none
  titlePage := none
  theme := none
  page := ⟨none, none⟩
  content := none
  chapters := none
  source := none
  proposal := none
  toc := none
  dateLocale := none
  frontmatter := .empty
  output := none
  web := ⟨none, none⟩

instance : Inhabited Config := ⟨empty⟩

/-- Lays a configuration over another. -/
def merge (base upper : Config) : Config where
  template := upper.template.or base.template
  titlePage := upper.titlePage.or base.titlePage
  theme := upper.theme.or base.theme
  page := ⟨upper.page.size.or base.page.size, upper.page.margin.or base.page.margin⟩
  content := upper.content.or base.content
  chapters := upper.chapters.or base.chapters
  source := upper.source.or base.source
  proposal := upper.proposal.or base.proposal
  toc := upper.toc.or base.toc
  dateLocale := upper.dateLocale.or base.dateLocale
  frontmatter := base.frontmatter.merge upper.frontmatter
  output := upper.output.or base.output
  web := ⟨upper.web.multipage.or base.web.multipage, upper.web.splitOn.or base.web.splitOn⟩

def locale (config : Config) : Locale :=
  .ofTag config.dateLocale

end Config

/-! ### Reading -/

namespace Toml

mutual

/-- A value of a document as a value of templates. -/
def Item.toValue : Item → Value
  | .string s => .string s
  | .integer i => .int i
  | .float x => .float x
  | .boolean b => .bool b
  | .datetime text => .string text
  | .array items => .seq (Item.toValues items)
  | .table _ fields => .ofFields (Item.toFields fields)
  | .tables elements => .seq (Item.toMaps elements)

def Item.toValues : List Item → List Value
  | [] => []
  | item :: items => item.toValue :: Item.toValues items

def Item.toFields : List (String × Item) → List (String × Value)
  | [] => []
  | (key, item) :: fields => (key, item.toValue) :: Item.toFields fields

def Item.toMaps : List (List (String × Item)) → List Value
  | [] => []
  | fields :: elements => .ofFields (Item.toFields fields) :: Item.toMaps elements

end

/-- Reads a setting, which may be absent but has to be of its kind. -/
def setting? {α : Type} (fields : List (String × Item)) (key : String) (read : Item → Option α) :
    Option (Option α) :=
  match Fields.find? key fields with
  | none => some none
  | some item => (read item).map some

def Item.text? : Item → Option String
  | .string s => some s
  | _ => none

def Item.flag? : Item → Option Bool
  | .boolean b => some b
  | _ => none

def Item.texts? : Item → Option (List String)
  | .array items => items.mapM Item.text?
  | _ => none

/-- One of several names, given as a text or as the only key of a table that holds nothing. -/
def Item.choice? {α : Type} (ofName? : String → Option α) : Item → Option α
  | .string s => ofName? s
  | .table _ [(name, .table _ [])] | .table _ [(name, .array [])] => ofName? name
  | _ => none

/-- The fields of a table. A date is one that holds its mark. -/
def Item.fields? : Item → Option (List (String × Item))
  | .table _ fields => some fields
  | .datetime text => some [(Value.datetimeMark, .string text)]
  | _ => none

/-- A group of settings, given by their keys or as an array in the order of the keys. -/
def Item.group? (keys : List String) : Item → Option (List (String × Item))
  | .array items => some (keys.zip items)
  | item => item.fields?

def page? (item : Item) : Option PageConfig := do
  let fields ← item.group? ["size", "margin"]
  return ⟨← setting? fields "size" Item.text?, ← setting? fields "margin" Item.text?⟩

def web? (item : Item) : Option WebConfig := do
  let fields ← item.group? ["multipage", "split_on"]
  return ⟨← setting? fields "multipage" Item.flag?,
    ← setting? fields "split_on" (Item.choice? SplitOn.ofName?)⟩

def namespace? (item : Item) : Option Namespace :=
  item.fields?.map (fun fields => .ofList (Item.toFields fields))

/-- The configuration in the fields of a document. Keys that are no setting are passed upper. -/
def config? (fields : List (String × Item)) : Option Config := do
  let text (key : String) : Option (Option String) := setting? fields key Item.text?
  let flag (key : String) : Option (Option Bool) := setting? fields key Item.flag?
  return {
    template := ← text "template"
    titlePage := ← flag "title_page"
    theme := ← setting? fields "theme" (Item.choice? Theme.ofName?)
    page := (← setting? fields "page" page?).getD ⟨none, none⟩
    content := ← text "content"
    chapters := ← setting? fields "chapters" Item.texts?
    source := ← setting? fields "source" Item.texts?
    proposal := ← flag "proposal"
    toc := ← flag "toc"
    dateLocale := ← text "date_locale"
    frontmatter := (← setting? fields "frontmatter" namespace?).getD .empty
    output := ← text "output"
    web := (← setting? fields "web" web?).getD ⟨none, none⟩ }

end Toml

/-- Reads the text of a configuration file. The path only labels the error. -/
def Config.parse (text path : String) : Except Error Config :=
  match (Toml.parse? text).bind Toml.config? with
  | some config => .ok config
  | none => .error (.config path)

end Folio
