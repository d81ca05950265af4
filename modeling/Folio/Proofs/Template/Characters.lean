import Folio.Template.Basic

/-! Templates from their characters. What a template is depends on the characters of its text only, so that one whose
text is put together from written parts is computed from the characters of the parts, without their bytes. -/
namespace Folio

/-- Two texts behind one another have the characters of both. -/
theorem Text.append_eq_ofList {a b : String} {l m : List Char} (ha : a = String.ofList l) (hb : b = String.ofList m) :
    a ++ b = String.ofList (l ++ m) := by
  rw [ha, hb, String.ofList_append]

namespace Template

variable {source : String} {chars : List Char}

/-- Reads a template from its characters. -/
def parseChars (chars : List Char) : Except ParseError (List Node) :=
  match Parser.nodes (chars.length + 1) [] ⟨chars, false⟩ with
  | .ok ((nodes, _), _) => .ok nodes
  | .error fault => .error fault.locate

theorem parse_eq_parseChars (h : source = String.ofList chars) : parse source = parseChars chars := by
  rw [h, parse, String.toList_ofList]
  rfl

/-- A template with its name from its characters. -/
def readChars (name : String) (chars : List Char) : Except RenderError Template :=
  match parsed : parseChars chars with
  | .ok nodes => .ok ⟨name, String.ofList chars, nodes, (parse_eq_parseChars rfl).trans parsed⟩
  | .error error => .error (.parse name error)

theorem read_eq_readChars (h : source = String.ofList chars) (name : String) :
    read name source = readChars name chars := by
  subst h
  rw [read, readChars]
  split <;> split <;> rename_i first _ second
  all_goals
    have same := (first.symm.trans (parse_eq_parseChars rfl)).trans second
    cases same
  all_goals rfl

end Template

end Folio
