import Folio.Text.Digit
import Folio.Yaml.Token

/-! Splitting a YAML document into tokens. A scalar may turn out to be a key when a colon follows it on
its line; its place among the tokens is kept until then. -/
namespace Folio.Yaml

/-- The place of a scalar or collection that may be a key. It is `required` to be one where a block
mapping has its keys. -/
structure Candidate where
  index : Nat
  offset : Nat
  line : Nat
  column : Nat
  required : Bool

/-- How far the text has been split: `offset` counts bytes, `column` characters. `indents` and `candidates`
start with the innermost; there is one candidate, or none, for every open bracket and one for the
outside. `tokens` start with the latest, and there are `count` of them. `bound` is above the length of the
whole text. -/
structure Scanner where
  bound : Nat
  rest : List Char
  offset : Nat
  line : Nat
  column : Nat
  indent : Int
  indents : List Int
  keyAllowed : Bool
  candidate : Option Candidate
  candidates : List (Option Candidate)
  count : Nat
  tokens : List Token

abbrev Scan := StateT Scanner Option

namespace Scanner

def ofText (text : List Char) : Scanner where
  bound := text.length + 1
  rest := text
  offset := 0
  line := 0
  column := 0
  indent := -1
  indents := []
  keyAllowed := true
  candidate := none
  candidates := []
  count := 0
  tokens := []

/-- Within brackets. -/
def inFlow (s : Scanner) : Bool :=
  !s.candidates.isEmpty

/-- Passes over one character. -/
def step (s : Scanner) (c : Char) : Scanner :=
  if isBreak c then
    { s with rest := s.rest.tail, offset := s.offset + c.utf8Size, line := s.line + 1, column := 0 }
  else { s with rest := s.rest.tail, offset := s.offset + c.utf8Size, column := s.column + 1 }

/-- Passes over so many characters. -/
def skip (s : Scanner) (n : Nat) : Scanner :=
  (s.rest.take n).foldl step s

def emit (s : Scanner) (t : Token) : Scanner :=
  { s with count := s.count + 1, tokens := t :: s.tokens }

/-- Inserts a token behind the first `index` ones. -/
def insert (s : Scanner) (index : Nat) (t : Token) : Scanner :=
  let after := s.count - index
  { s with count := s.count + 1, tokens := s.tokens.take after ++ t :: s.tokens.drop after }

/-- Begins a block collection if the column is deeper than the one around. -/
def indentTo (s : Scanner) (column : Nat) (index : Nat) (t : Token) : Scanner :=
  if !s.inFlow && s.indent < column then
    { s.insert index t with indent := column, indents := s.indent :: s.indents }
  else s

/-- Ends the block collections that are deeper than a column. -/
def dedentTo (s : Scanner) (column : Int) : Scanner :=
  if s.inFlow then s
  else
    let deeper := (s.indent :: s.indents).takeWhile (column < ·)
    match (s.indent :: s.indents).drop deeper.length with
    | indent :: indents =>
      { s with
        indent, indents
        count := s.count + deeper.length
        tokens := List.replicate deeper.length .blockEnd ++ s.tokens }
    | [] => s

end Scanner

namespace Scan

def rest : Scan (List Char) :=
  return (← get).rest

def skip (n : Nat) : Scan Unit :=
  modify (·.skip n)

def emit (t : Token) : Scan Unit :=
  modify (·.emit t)

def allowKey (b : Bool) : Scan Unit :=
  modify ({ · with keyAllowed := b })

/-! ### Keys -/

/-- Gives the candidate up. It must not have been required. -/
def dropCandidate : Scan Unit := do
  let s ← get
  if s.candidate.any (·.required) then failure
  set { s with candidate := none }

/-- Makes what comes next the candidate, where a key may stand. -/
def markCandidate : Scan Unit := do
  let s ← get
  if s.keyAllowed then
    let required := !s.inFlow && s.indent = s.column
    dropCandidate
    modify ({ · with candidate := some ⟨s.count, s.offset, s.line, s.column, required⟩ })

/-- The candidate, if a colon here makes it a key: it stands on this line, at most 1024 bytes back. -/
def liveCandidate? : Scan (Option Candidate) := do
  let s ← get
  match s.candidate with
  | none => return none
  | some c =>
    if c.line < s.line || c.offset + 1024 < s.offset then
      dropCandidate
      return none
    else return some c

/-! ### Gaps -/

/-- Blanks and breaks between two parts of a scalar: the blanks before the first break, and the
breaks. -/
structure Gap where
  blanks : List Char
  breaks : List Char

/-- What a gap becomes in a scalar. One break becomes a blank, and the first of several is dropped. -/
def Gap.folded (gap : Gap) : List Char :=
  match gap.breaks with
  | [] => gap.blanks
  | ['\n'] => [' ']
  | '\n' :: more => more
  | breaks => breaks

/-- Takes a gap. A tab must not stand left of a column at the start of a line. -/
def gap (least : Int) : Nat → Gap → Scan Gap
  | 0, found => return found
  | n + 1, found => do
    let s ← get
    match s.rest with
    | c :: _ =>
      if isBlank c then
        if !found.breaks.isEmpty && c = '\t' && (s.column : Int) < least then failure
        skip 1
        gap least n (if found.breaks.isEmpty then { found with blanks := found.blanks ++ [c] } else found)
      else if isBreak c then
        skip 1
        gap least n { found with breaks := found.breaks ++ [c] }
      else return found
    | [] => return found

/-! ### Plain scalars -/

/-- Characters that end a plain scalar within brackets. -/
def isFlowEnd (c : Char) : Bool :=
  c = ',' || c = '[' || c = ']' || c = '{' || c = '}'

/-- The part of a plain scalar up to a gap or an indicator. Within brackets a colon before an indicator
is an error. -/
def plainRun (flow : Bool) : List Char → Option (List Char)
  | [] => some []
  | c :: rest =>
    if isBlank c || isBreak c then some []
    else if flow && c = ':' && rest.head?.any (fun d => d = '?' || isFlowEnd d) then none
    else if (c = ':' && atGap rest) || (flow && isFlowEnd c) then some []
    else (plainRun flow rest).map (c :: ·)

/-- The rest of a plain scalar after a gap. It goes on over lines that are indented deep enough; a key may
follow only if it ends with its line. `text` is what has been read, backwards. -/
def plainParts : Nat → List Char → List Char → Scan (List Char)
  | 0, text, _ => return text.reverse
  | n + 1, text, pending => do
    let s ← get
    if (s.column = 0 && atDocumentMark s.rest) || s.rest.head? = some '#' then return text.reverse
    let run ← (plainRun s.inFlow s.rest : Option (List Char))
    skip run.length
    if !run.isEmpty then allowKey false
    let text := if run.isEmpty then text else (pending ++ run).reverse ++ text
    let s ← get
    if s.rest.isEmpty || !atGap s.rest then return text.reverse
    let found ← gap (s.indent + 1) s.bound ⟨[], []⟩
    let s ← get
    if !found.breaks.isEmpty then allowKey true
    if !s.inFlow && (s.column : Int) < s.indent + 1 then return text.reverse
    let more ← plainParts n text found.folded
    return more

def plainScalar : Scan Unit := do
  markCandidate
  allowKey false
  let s ← get
  let text ← plainParts s.bound [] []
  emit (.scalar true text)

/-! ### Quoted scalars -/

/-- The character of an escape of one letter. -/
def escape? : Char → Option Char
  | '0' => some '\x00'
  | 'a' => some '\x07'
  | 'b' => some '\x08'
  | 't' | '\t' => some '\t'
  | 'n' => some '\n'
  | 'v' => some '\x0b'
  | 'f' => some '\x0c'
  | 'r' => some '\r'
  | 'e' => some '\x1b'
  | ' ' => some ' '
  | '"' => some '"'
  | '/' => some '/'
  | '\\' => some '\\'
  | 'N' => some '\u0085'
  | '_' => some '\u00a0'
  | 'L' => some '\u2028'
  | 'P' => some '\u2029'
  | _ => none

/-- The character of an escape after its backslash, and how many characters the escape has. -/
def escaped? (text : List Char) : Option (Char × Nat) :=
  match text with
  | [] => none
  | c :: rest =>
    let hex (n : Nat) : Option (Char × Nat) :=
      if (rest.take n).length = n then (Text.hexChar? (rest.take n)).map (fun c => (c, n + 1)) else none
    match c with
    | 'x' => hex 2
    | 'u' => hex 4
    | 'U' => hex 8
    | c => (escape? c).map (fun c => (c, 1))

/-- The content of a quoted scalar up to its closing quote. Lines are folded, and a backslash at the end
of a line joins it to the next. `text` is what has been read, backwards. -/
def quotedParts (quote : Char) : Nat → List Char → Scan (List Char)
  | 0, _ => failure
  | n + 1, text => do
    let s ← get
    if s.column = 0 && atDocumentMark s.rest then failure
    match s.rest with
    | [] => failure
    | c :: rest =>
      if isBlank c || isBreak c then
        let found ← gap (-1) s.bound ⟨[], []⟩
        quotedParts quote n (found.folded.reverse ++ text)
      else if c = quote then
        if quote = '\'' && rest.head? = some '\'' then
          skip 2
          quotedParts quote n ('\'' :: text)
        else
          skip 1
          return text.reverse
      else if quote = '"' && c = '\\' then
        if rest.head?.any isBreak then
          skip 2
          let found ← gap (-1) s.bound ⟨[], ['\n']⟩
          quotedParts quote n ((found.breaks.drop 1).reverse ++ text)
        else
          let (meant, length) ← (escaped? rest : Option (Char × Nat))
          skip (length + 1)
          quotedParts quote n (meant :: text)
      else
        skip 1
        quotedParts quote n (c :: text)

def quotedScalar (quote : Char) : Scan Unit := do
  markCandidate
  allowKey false
  skip 1
  let s ← get
  let text ← quotedParts quote s.bound []
  emit (.scalar false text)

/-! ### Block scalars -/

/-- What becomes of the breaks at the end of a block scalar. -/
inductive Chomping where
  | strip
  | clip
  | keep

def chomping? : Char → Option Chomping
  | '-' => some .strip
  | '+' => some .keep
  | _ => none

/-- The header of a block scalar after its indicator: chomping, and an indentation if it is given. -/
def blockHeader : Scan (Chomping × Nat) := do
  match ← rest with
  | c :: d :: _ =>
    match chomping? c, chomping? d with
    | some chomping, _ =>
      if d.isDigit then
        skip 2
        positive chomping d
      else
        skip 1
        return (chomping, 0)
    | none, some chomping =>
      if c.isDigit then
        skip 2
        positive chomping c
      else return (.clip, 0)
    | none, none =>
      if c.isDigit then
        skip 1
        positive .clip c
      else return (.clip, 0)
  | [c] =>
    if c.isDigit then
      skip 1
      positive .clip c
    else
      match chomping? c with
      | some chomping => skip 1; return (chomping, 0)
      | none => return (.clip, 0)
  | [] => return (.clip, 0)
where
  positive (chomping : Chomping) (digit : Char) : Scan (Chomping × Nat) :=
    if digit = '0' then failure else return (chomping, digit.toNat - '0'.toNat)

/-- Breaks and the indentation after them, at most `indent` deep unless that is zero. Gives the breaks and
the deepest column. -/
def blockBreaks (indent : Nat) : Nat → List Char → Nat → Scan (List Char × Nat)
  | 0, breaks, deepest => return (breaks, deepest)
  | n + 1, breaks, deepest => do
    let s ← get
    let blanks := (s.rest.takeWhile (· = ' ')).length
    skip (if indent = 0 then blanks else min blanks (indent - s.column))
    let s ← get
    let deepest := max deepest s.column
    match s.rest with
    | c :: _ =>
      if c = '\t' && (indent = 0 || s.column < indent) then failure
      if isBreak c then
        skip 1
        blockBreaks indent n (breaks ++ [c]) deepest
      else return (breaks, deepest)
    | [] => return (breaks, deepest)

/-- The lines of a block scalar. `text` is what has been read, backwards. `before` is the break before the line
at hand, `breaks` those of empty lines after it, and `blank` says that the line before starts with a
blank. -/
def blockLines (literal : Bool) (chomping : Chomping) (indent : Nat) :
    Nat → (text before breaks : List Char) → (blank : Bool) → Scan (List Char)
  | 0, text, _, _, _ => return text.reverse
  | n + 1, text, before, breaks, blank => do
    let s ← get
    if s.column ≠ indent || s.rest.isEmpty then
      match chomping with
      | .strip => return text.reverse
      | .clip => return text.reverse ++ before
      | .keep => return text.reverse ++ before ++ breaks
    else
      let startsBlank := s.rest.head?.any isBlank
      let joint :=
        if !literal && before = ['\n'] && !blank && !startsBlank then
          if breaks.isEmpty then [' '] else []
        else before
      let content := s.rest.takeWhile (!isBreak ·)
      skip content.length
      let after := (← rest).take 1
      skip 1
      let (empty, _) ← blockBreaks indent s.bound [] 0
      let text := (joint ++ breaks ++ content).reverse ++ text
      blockLines literal chomping indent n text after empty startsBlank

def blockScalar (literal : Bool) : Scan Unit := do
  dropCandidate
  allowKey true
  skip 1
  let (chomping, increment) ← blockHeader
  skip ((← rest).takeWhile isBlank).length
  if (← rest).head? = some '#' then skip ((← rest).takeWhile (!isBreak ·)).length
  if !((← rest).isEmpty || (← rest).head?.any isBreak) then failure
  skip 1
  let s ← get
  let given : Nat := if increment = 0 then 0 else (max s.indent 0).toNat + increment
  let (breaks, deepest) ← blockBreaks given s.bound [] 0
  let indent := if given = 0 then max deepest (max (s.indent + 1).toNat 1) else given
  let text ← blockLines literal chomping indent s.bound [] [] breaks false
  emit (.scalar false text)

/-! ### Indicators -/

def documentMark (t : Token) : Scan Unit := do
  modify (·.dedentTo (-1))
  dropCandidate
  allowKey false
  skip 3
  emit t

def openFlow (t : Token) : Scan Unit := do
  markCandidate
  modify (fun s => { s with candidates := s.candidate :: s.candidates, candidate := none })
  allowKey true
  skip 1
  emit t

def closeFlow (t : Token) : Scan Unit := do
  dropCandidate
  modify (fun s =>
    match s.candidates with
    | candidate :: candidates => { s with candidate, candidates }
    | [] => s)
  allowKey false
  skip 1
  emit t

def comma : Scan Unit := do
  dropCandidate
  allowKey true
  skip 1
  emit .comma

/-- Begins a block collection where a key may stand. -/
def beginBlock (t : Token) : Scan Unit := do
  let s ← get
  if !s.inFlow then
    if !s.keyAllowed then failure
    set (s.indentTo s.column s.count t)

def entry : Scan Unit := do
  beginBlock .blockSequence
  dropCandidate
  allowKey true
  skip 1
  emit .entry

def explicitKey : Scan Unit := do
  beginBlock .blockMapping
  dropCandidate
  allowKey !(← get).inFlow
  skip 1
  emit .key

/-- A colon. What stands before it on its line becomes a key. -/
def value : Scan Unit := do
  match ← liveCandidate? with
  | some c =>
    modify (fun s => (s.insert c.index .key).indentTo c.column c.index .blockMapping)
    modify ({ · with candidate := none })
    allowKey false
  | none =>
    beginBlock .blockMapping
    allowKey !(← get).inFlow
  skip 1
  emit .value

/-- Passes over blanks, comments and breaks, and over a byte order mark at the start of a line. Tabs do not
count as blanks where a key may stand. -/
def skipGap : Nat → Scan Unit
  | 0 => return
  | n + 1 => do
    if (← get).column = 0 && (← rest).head? = some '\uFEFF' then skip 1
    let s ← get
    let tabs := s.inFlow || !s.keyAllowed
    skip (s.rest.takeWhile (fun c => c = ' ' || (tabs && c = '\t'))).length
    if (← rest).head? = some '#' then skip ((← rest).takeWhile (!isBreak ·)).length
    if (← rest).head?.any isBreak then
      skip 1
      if !s.inFlow then allowKey true
      skipGap n

/-- Characters that no plain scalar starts with, unless a dash, question mark or colon is followed by
more. A tab is left here only where a key may stand. -/
def isIndicator (c : Char) : Bool :=
  isBlank c || "-?:,[]\x7b\x7d#&*!|>'\"%@\x60".toList.contains c

/-- Takes the token that the text starts with. -/
def token : Scan Unit := do
  let s ← get
  match s.rest with
  | [] => return
  | c :: after =>
    if s.column = 0 && startsMark '-' s.rest then documentMark .documentStart
    else if s.column = 0 && startsMark '.' s.rest then documentMark .documentEnd
    else if c = '[' then openFlow .openBracket
    else if c = '{' then openFlow .openBrace
    else if c = ']' then closeFlow .closeBracket
    else if c = '}' then closeFlow .closeBrace
    else if c = ',' then comma
    else if c = '-' && atGap after then entry
    else if c = '?' && (s.inFlow || atGap after) then explicitKey
    else if c = ':' && (s.inFlow || atGap after) then value
    else if c = '|' && !s.inFlow then blockScalar true
    else if c = '>' && !s.inFlow then blockScalar false
    else if c = '\'' || c = '"' then quotedScalar c
    else if !isIndicator c || (c = '-' && !after.head?.any isBlank) ||
        (!s.inFlow && (c = '?' || c = ':') && !atGap after) then plainScalar
    else failure

/-- Takes all tokens of the text. Every one takes a character of it. -/
def tokens : Nat → Scan Unit
  | 0 => failure
  | n + 1 => do
    skipGap (← get).bound
    modify (fun s => s.dedentTo s.column)
    if (← rest).isEmpty then
      modify (·.dedentTo (-1))
      dropCandidate
    else
      token
      tokens n

end Scan

/-- The tokens of a text. -/
def tokenize (text : List Char) : Option (List Token) := do
  let text := normalizeBreaks text
  if !text.all isAllowed then none
  let (_, s) ← Scan.tokens (text.length + 1) (.ofText text)
  return s.tokens.reverse

end Folio.Yaml
