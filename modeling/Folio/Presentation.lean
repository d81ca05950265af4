import Folio.Config

/-! How a document is laid out, from its configuration and its frontmatter. -/
namespace Folio

structure Presentation where
  template : String
  theme : Theme
  titlePage : Bool
  proposal : Bool
  pageSize : String
  pageMargin : String
  /-- The frontmatter of the configuration with that of the document laid over it. -/
  vars : Namespace

namespace Presentation

/-- Settles every setting that the configuration leaves open. -/
def build (config : Config) (frontmatter : Namespace) : Presentation where
  template := config.template.getD "default"
  theme := config.theme.getD .light
  titlePage := config.titlePage.getD false
  proposal := config.proposal.getD false
  pageSize := config.page.size.getD "A4"
  pageMargin := config.page.margin.getD "2.5cm 2cm 2cm 2cm"
  vars := .mergeLayers [some config.frontmatter, some frontmatter]

/-- What a layout shows, as variables. -/
def settings (p : Presentation) (content css : String) : Namespace :=
  .ofList [
    ("content", .string content),
    ("css", .string css),
    ("titlePage", .bool p.titlePage),
    ("proposal", .bool p.proposal),
    ("theme", .string p.theme.name),
    ("pageSize", .string p.pageSize),
    ("pageMargin", .string p.pageMargin)]

/-- The namespace of the layout. Frontmatter hides a setting of the same name. -/
def layoutNamespace (p : Presentation) (content css : String) : Namespace :=
  .mergeLayers [some (p.settings content css), some p.vars]

end Presentation

end Folio
