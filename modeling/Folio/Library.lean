import Folio.Error
import Folio.Template.Render

/-! Libraries of named templates that include, extend and import one another. A template that does not
parse is kept aside with its error, which surfaces only when the template is used. -/
namespace Folio

open Template (Setting)

/-- A source text that does not parse. -/
structure Rejected where
  source : String
  error : ParseError

structure Library where
  templates : List (String × Template)
  rejected : List (String × Rejected)
  locale : Locale

namespace Library

def empty : Library :=
  ⟨[], [], .english⟩

instance : Inhabited Library := ⟨empty⟩

/-- The name is taken. -/
def contains (library : Library) (name : String) : Bool :=
  (Fields.find? name library.templates).isSome || (Fields.find? name library.rejected).isSome

/-- Adds a template under a name that is free. -/
def add (library : Library) (name source : String) : Except Error Library :=
  if library.contains name then .error (.templateExists name)
  else
    match Template.read name source with
    | .ok template => .ok { library with templates := Fields.put name template library.templates }
    | .error error => .error error

/-- Adds a template that may fail to parse, and tells whether it does parse. -/
def addOrReject (library : Library) (name source : String) : Except Error (Library × Bool) :=
  if library.contains name then .error (.templateExists name)
  else
    match parsed : Template.parse source with
    | .ok nodes =>
      let template : Template := ⟨name, source, nodes, parsed⟩
      .ok ({ library with templates := Fields.put name template library.templates }, true)
    | .error error =>
      .ok ({ library with rejected := Fields.put name ⟨source, error⟩ library.rejected }, false)

def get? (library : Library) (name : String) : Option Template :=
  Fields.find? name library.templates

/-- The names of the templates that parse. -/
def names (library : Library) : List String :=
  Fields.keys library.templates

/-- The template of a name. One that was rejected gives its error. -/
def template? (library : Library) (name : String) : Except RenderError (Option Template) :=
  match library.get? name, Fields.find? name library.rejected with
  | some template, _ => .ok (some template)
  | none, some rejected => .error (.parse name rejected.error)
  | none, none => .ok none

/-- The source of a name, whether it parses or not. -/
def source? (library : Library) (name : String) : Option String :=
  match library.get? name with
  | some template => some template.source
  | none => (Fields.find? name library.rejected).map (·.source)

def setting (library : Library) : Setting :=
  ⟨library.template?, library.locale⟩

/-- The template of a name, which has to exist. -/
def require (library : Library) (name : String) : Except RenderError Template :=
  Template.require library.setting name

/-- The text of the template of a name. -/
def render (library : Library) (name : String) (globals : Namespace) :
    Except RenderError String := do
  (← library.require name).render library.setting globals

/-- The text of a template that is given by its source. -/
def renderText (library : Library) (source : String) (globals : Namespace) :
    Except RenderError String := do
  (← Template.read Template.inlineName source).render library.setting globals

end Library

end Folio
