import Folio.Error
import Folio.Namespace
import Folio.Text.Space
import Folio.Yaml.Document

/-! Frontmatter: a block of YAML between two lines of dashes at the start of a text. A text whose block is
not closed has none. -/
namespace Folio.Frontmatter

def delimiter : List Char := "---".toList

/-- What follows the opening line, which has nothing but the dashes. -/
def opened? (text : List Char) : Option (List Char) :=
  match delimiter.isPrefixOf? text with
  | some ('\r' :: '\n' :: rest) | some ('\n' :: rest) => some rest
  | _ => none

/-- The line has nothing but the dashes and blanks after them. -/
def isClosing (line : List Char) : Bool :=
  Text.trimEnd line = delimiter

/-- The text before the first closing line and the text after it. -/
def splitAtClosing? : List (List Char) → Option (List Char × List Char)
  | [] => none
  | line :: lines =>
    if isClosing line then some ([], lines.flatten)
    else (splitAtClosing? lines).map (fun (block, body) => (line ++ block, body))

/-- The block of a text and what follows its closing line. -/
def split? (text : List Char) : Option (List Char × List Char) :=
  (opened? text).bind (fun rest => splitAtClosing? (Text.lines rest))

/-- The variables of a block. A blank one has none. -/
def readBlock (block : List Char) : Except Error Namespace :=
  if (Text.trim block).isEmpty then .ok .empty
  else
    match Yaml.parse? (String.ofList block) with
    | some fields => .ok (.ofList fields)
    | none => .error .frontmatter

/-- The variables of a text and its body. -/
def read (raw : String) : Except Error (Namespace × String) :=
  match split? raw.toList with
  | none => .ok (.empty, raw)
  | some (block, body) => (readBlock block).map (fun ns => (ns, String.ofList body))

end Folio.Frontmatter
