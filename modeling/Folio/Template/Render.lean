import Folio.Template.Evaluate

/-! The text of nodes. A document follows its parents to the outermost layout, whose blocks show the
bodies that the documents on the way give them; the most derived body of a name counts. -/
namespace Folio.Template

/-! ### Blocks and parents -/

mutual

def blocksOf : Node → Overrides
  | .block name body => (name, body) :: blocksIn body
  | _ => []

/-- The blocks of a document, outer ones before those inside them. -/
def blocksIn : List Node → Overrides
  | [] => []
  | node :: nodes => blocksOf node ++ blocksIn nodes

end

/-- The expression for the name of a document's parent. -/
def parent? (nodes : List Node) : Option Expr :=
  nodes.findSome? (fun
    | .extend parent => some parent
    | _ => none)

/-- The macros that a document offers for import. -/
def exports (nodes : List Node) : List Definition :=
  nodes.filterMap (fun
    | .define name params body => some ⟨name, params, body⟩
    | _ => none)

/-! ### Loops -/

/-- The progress of a loop as its body sees it. -/
def progress (index length : Nat) : Value :=
  .map (Fields.ofList [
    ("index", .ofNat (index + 1)),
    ("index0", .ofNat index),
    ("revindex", .ofNat (length - index)),
    ("revindex0", .ofNat (length - index - 1)),
    ("first", .bool (index = 0)),
    ("last", .bool (index + 1 = length)),
    ("length", .ofNat length)])

/-- The items that a loop runs over. Maps give their keys, or pairs if there are several targets. -/
def loopItems (targets : List String) : Value → Except RenderError (List Value)
  | .seq items => .ok items
  | .map fields =>
    if 1 < targets.length then
      .ok (fields.map (fun (key, value) => .seq [.string key, value]))
    else .ok (fields.map (fun (key, _) => .string key))
  | .string s => .ok (s.toList.map (fun c => .string c.toString))
  | .undefined | .null => .ok []
  | other => .error (.notIterable other.kind)

/-- Binds the targets of a loop to an item. Several targets take a sequence apart. -/
def bindTargets (targets : List String) (item : Value) : Except RenderError Scope :=
  match targets, item with
  | [target], item => .ok [(target, item)]
  | targets, .seq parts =>
    if parts.length = targets.length then .ok (Fields.ofList (targets.zip parts))
    else .error (.unpackMismatch parts.length targets.length)
  | targets, other => .error (.notUnpackable other.kind targets.length)

/-- Runs a body for every item from an index on, each time in a scope of its own, and appends the
texts. -/
def forEach (targets : List String) (body : Rendering String) (length : Nat) :
    Nat → List Value → String → Rendering String
  | _, [], done => return done
  | index, item :: items, done => do
    let scope ← bindTargets targets item
    let text ← Rendering.inScope (Fields.put loopName (progress index length) scope) body
    forEach targets body length (index + 1) items (done ++ text)

/-! ### Nodes -/

variable (setting : Setting) (jumps : Jumps)

/-- The value of an expression, which leaves the context as it is. -/
def evaluate (place : Place) (e : Expr) : Rendering Value := do
  eval setting jumps place.calls (← get) e

def evaluateAll (place : Place) (es : List Expr) : Rendering (List Value) := do
  evalAll setting jumps place.calls (← get) es

/-- The template of a name. -/
def require (name : String) : Except RenderError Template := do
  (← setting.template? name).elim (.error (.missingTemplate name)) .ok

/-- Follows the parents of a document, at most `allowed` of them, and renders the outermost one with the
blocks of all. -/
def layOut (start : String) (allowed : Nat) (place : Place) (nodes : List Node) :
    Rendering String := do
  match parent? nodes with
  | none => jumps.body place nodes
  | some e =>
    let name ← evaluate setting jumps place e
    let parent ← require setting name.text
    match allowed with
    | 0 => throw (.parentsTooDeep start)
    | allowed + 1 =>
      let overrides := place.overrides ++ blocksIn nodes
      layOut start allowed ⟨overrides, place.depth + 1, place.calls⟩ parent.nodes

/-- The text of a document with its parents. -/
def document (template : Template) (depth calls : Nat) : Rendering String :=
  layOut setting jumps template.name (maxNesting - depth) ⟨[], depth, calls⟩ template.nodes

/-- Includes a template, in a scope of its own or without a view of the context. -/
def include? (place : Place) (name : String) (ignoreMissing withContext : Bool) :
    Rendering String := do
  match ← setting.template? name with
  | none => if ignoreMissing then return "" else throw (.missingTemplate name)
  | some included =>
    if maxNesting ≤ place.depth then throw (.inclusionTooDeep name)
    let text := document setting jumps included (place.depth + 1) place.calls
    if withContext then Rendering.inScope [] text
    else Rendering.isolated (.ofNamespace .empty) text

/-- Calls a macro with a body for it to call in turn, which sees the variables around it. -/
def callWith (place : Place) (params : List Param) (body : List Node) (call : Expr) :
    Rendering String := do
  let context ← get
  let caller : Callable := ⟨⟨callerName, params, body⟩, context.locals⟩
  match call with
  | .call callee args =>
    match callee.path?.bind context.macro? with
    | some callable =>
      let args ← evaluateAll setting jumps place args
      invoke jumps place.calls callable args context (some caller)
    | none => throw .callTarget
  | _ => throw .callTarget

/-- The macros of the template that an expression names. -/
def imported (place : Place) (template : Expr) : Rendering (List Definition) := do
  let name ← evaluate setting jumps place template
  return exports (← require setting name.text).nodes

/-- Binds the macros that are imported one by one. -/
def bindImported (offered : List Definition) : List (String × String) → Rendering Unit
  | [] => return
  | (name, shown) :: names => do
    match offered.find? (·.name = name) with
    | some definition => modify (·.bindMacro shown ⟨definition, []⟩)
    | none => throw (.missingMacro name)
    bindImported offered names

mutual

def renderNode (place : Place) : Node → Rendering String
  | .text content => return content
  | .output e => return (← evaluate setting jumps place e).text
  | .branch arms otherwise => renderArms place arms (renderOption place otherwise)
  | .inclusion name ignoreMissing withContext => do
    let name ← evaluate setting jumps place name
    include? setting jumps place name.text ignoreMissing withContext
  | .block name body =>
    match place.overrides.lookup name with
    | some replacement => jumps.body place replacement
    | none => renderNodes place body
  | .loop targets items body otherwise => do
    let items ← loopItems targets (← evaluate setting jumps place items)
    if items.isEmpty then renderOption place otherwise
    else forEach targets (renderNodes place body) items.length 0 items ""
  | .assign name value => do
    let value ← evaluate setting jumps place value
    modify (·.assign name value)
    return ""
  | .extend _ => return ""
  | .define name params body => do
    modify (·.bindMacro name ⟨⟨name, params, body⟩, []⟩)
    return ""
  | .callBlock params call body => callWith setting jumps place params body call
  | .filterBlock name args body => do
    let content ← renderNodes place body
    let args ← evaluateAll setting jumps place args
    return (← (Value.string content).filter name args setting.locale).text
  | .importAs template group => do
    let offered ← imported setting jumps place template
    modify (fun context => offered.foldl
      (fun context definition => context.bindMacro (group ++ "." ++ definition.name) ⟨definition, []⟩)
      context)
    return ""
  | .importFrom template names => do
    bindImported (← imported setting jumps place template) names
    return ""

def renderNodes (place : Place) : List Node → Rendering String
  | [] => return ""
  | node :: nodes => do
    let text ← renderNode place node
    return text ++ (← renderNodes place nodes)

/-- The body of the first arm whose condition holds. -/
def renderArms (place : Place) : List (Expr × List Node) → Rendering String → Rendering String
  | [], otherwise => otherwise
  | (condition, body) :: arms, otherwise => do
    if (← evaluate setting jumps place condition).isTruthy then renderNodes place body
    else renderArms place arms otherwise

def renderOption (place : Place) : Option (List Node) → Rendering String
  | none => return ""
  | some body => renderNodes place body

end

/-! ### Jumps -/

/-- Rendering with at most so many nested jumps. -/
def Jumps.within (setting : Setting) : Nat → Jumps
  | 0 => { value := fun _ _ _ => .error .unsettled, body := fun _ _ => throw .unsettled }
  | n + 1 =>
    { value := fun calls context e => eval setting (within setting n) calls context e
      body := fun place nodes => renderNodes setting (within setting n) place nodes }

/-- Only a body or a default that leads back to itself jumps as deep as this. -/
def maxJumps : Nat := 1000000

/-- The text of a template for a namespace. -/
def render (setting : Setting) (template : Template) (globals : Namespace) :
    Except RenderError String :=
  (document setting (Jumps.within setting maxJumps) template 0 0 (.ofNamespace globals)).1

/-- Without other templates every inclusion and every parent is missing. -/
def Setting.alone (locale : Locale) : Setting :=
  ⟨fun _ => .ok none, locale⟩

/-- The text of a template that stands by itself. -/
def renderText (source : String) (globals : Namespace) (locale : Locale) :
    Except RenderError String := do
  (← read inlineName source).render (.alone locale) globals

end Folio.Template
