/-! Errors in the text of a template: where they are and what is wrong. -/
namespace Folio

/-- What a template's text got wrong. -/
inductive ParseError.Cause where
  | unexpectedToken (expected found : String)
  | unexpectedEnd (expected : String)
  | invalidIdentifier (start : Char)
  | unknownTag (keyword : String)
  | expected (description : String)
  | invalidNumber (text : String)
  /-- A bound on the length of the text is too small for it. -/
  | exhausted
  deriving DecidableEq, Repr

/-- An error at a place in the text. Lines count from one, and so does the column, which counts the
bytes of the line. -/
structure ParseError where
  line : Nat
  column : Nat
  cause : ParseError.Cause
  deriving DecidableEq, Repr

namespace ParseError

def Cause.message : Cause → String
  | .unexpectedToken wanted found => "Expected " ++ wanted ++ ", found " ++ found
  | .unexpectedEnd wanted => "Unexpected EOF (expected '" ++ wanted ++ "')"
  | .invalidIdentifier start => "Invalid identifier starting with '" ++ start.toString ++ "'"
  | .unknownTag keyword => "Unknown tag '" ++ keyword ++ "'"
  | .expected description => "Expected " ++ description
  | .invalidNumber text => "Parser error: invalid number literal '" ++ text ++ "'"
  | .exhausted => "Text exceeds its bound"

def message (e : ParseError) : String :=
  "Parse error at line " ++ toString e.line ++ ", column " ++ toString e.column ++ ": " ++
    e.cause.message

end ParseError

end Folio
