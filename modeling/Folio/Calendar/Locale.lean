/-! Languages in which months have names. -/
namespace Folio

inductive Locale where
  | english
  | dutch
  deriving DecidableEq, Repr, Inhabited

namespace Locale

/-- The locale of a language tag: `nl` and its regions are Dutch, whatever the letter case, and every
other tag is English. -/
def ofTag (tag : Option String) : Locale :=
  match tag.map (fun tag => tag.toList.map Char.toLower) with
  | some ['n', 'l'] => .dutch
  | some ('n' :: 'l' :: '-' :: _) => .dutch
  | _ => .english

/-- The locale's own tag. -/
def tag : Locale → String
  | .english => "en"
  | .dutch => "nl"

def longMonths : Locale → List String
  | .english => ["January", "February", "March", "April", "May", "June", "July", "August",
      "September", "October", "November", "December"]
  | .dutch => ["januari", "februari", "maart", "april", "mei", "juni", "juli", "augustus",
      "september", "oktober", "november", "december"]

def shortMonths : Locale → List String
  | .english => ["Jan", "Feb", "Mar", "Apr", "May", "Jun", "Jul", "Aug", "Sep", "Oct", "Nov", "Dec"]
  | .dutch => ["jan", "feb", "mrt", "apr", "mei", "jun", "jul", "aug", "sep", "okt", "nov", "dec"]

end Locale

end Folio
