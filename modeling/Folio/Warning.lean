/-! Warnings about missing variables, for a terminal: yellow, with a bold header. -/
namespace Folio

/-- The variables that are missing where a template was used. -/
structure MissingVariables where
  context : String
  missing : List String
  deriving DecidableEq, Repr

namespace MissingVariables

def yellow (text : String) : String :=
  "\x1b[33m" ++ text ++ "\x1b[39m"

def bold (text : String) : String :=
  "\x1b[1m" ++ text ++ "\x1b[0m"

/-- A header that counts the variables, and a line for each. -/
def warning (report : MissingVariables) : String :=
  let header := "⚠️ [publishpipe] Missing template variables in " ++ report.context ++ " (" ++
    toString report.missing.length ++ ")"
  "\n".intercalate (bold (yellow header) :: report.missing.map (fun item => yellow ("  - " ++ item)))

end MissingVariables

end Folio
