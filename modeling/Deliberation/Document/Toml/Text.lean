import Deliberation.Document.Basic

/-!
Strings, comments and blank space of TOML. Line ends are single line feeds here; pairs of carriage
return and line feed are joined before reading.
-/
namespace Deliberation.Toml

/-- Joins the two characters of a line end and drops a byte order mark at the front. -/
def normalize (input : List Char) : List Char :=
  let rec joinLineEnds : List Char → List Char
    | '\r' :: '\n' :: rest => '\n' :: joinLineEnds rest
    | c :: rest => c :: joinLineEnds rest
    | [] => []
  match input with
  | '\ufeff' :: rest => joinLineEnds rest
  | rest => joinLineEnds rest

def isBlank (c : Char) : Bool := c = ' ' || c = '\t'

def skipBlank (input : List Char) : List Char := input.dropWhile isBlank

/-- Characters of comments and of strings on one line: no controls except the tab. -/
def isPlain (c : Char) : Bool := c = '\t' || (0x20 ≤ c.toNat && c.toNat ≠ 0x7F)

/-- Skips blanks, line ends and comments, which end with their line. -/
def skipGaps (inComment : Bool) : List Char → Except String (List Char)
  | [] => .ok []
  | c :: rest =>
    if c = '\n' then skipGaps false rest
    else if inComment then
      if isPlain c then skipGaps true rest else .error "invalid character in comment"
    else if isBlank c then skipGaps false rest
    else if c = '#' then skipGaps true rest
    else .ok (c :: rest)

/-- Goes to the next line, past blanks and a comment. -/
def endLine (input : List Char) : Except String (List Char) :=
  let rec comment : List Char → Except String (List Char)
    | [] => .ok []
    | '\n' :: rest => .ok rest
    | c :: rest => if isPlain c then comment rest else .error "invalid character in comment"
  match skipBlank input with
  | [] => .ok []
  | '\n' :: rest => .ok rest
  | '#' :: rest => comment rest
  | _ => .error "expected the end of the line"

def simpleEscape? : Char → Option Char
  | 'b' => some '\x08'
  | 't' => some '\t'
  | 'n' => some '\n'
  | 'f' => some '\x0c'
  | 'r' => some '\r'
  | '"' => some '"'
  | '\\' => some '\\'
  | _ => none

def codeEscape? (digits : List Char) : Option Char :=
  (Document.hexValue? digits).bind Document.charOf?

/-- What is collected, newest first, as a string with the rest of the input. -/
def finish (done rest : List Char) : Except String (String × List Char) :=
  .ok (String.ofList done.reverse, rest)

/-- A string in double quotes, after the opening quote. -/
def readBasic (done : List Char) : Document.Reader String
  | [] => .error "unterminated string"
  | '"' :: rest => finish done rest
  | '\\' :: 'u' :: a :: b :: c :: d :: rest =>
    match codeEscape? [a, b, c, d] with
    | some x => readBasic (x :: done) rest
    | none => .error "invalid escape"
  | '\\' :: 'U' :: a :: b :: c :: d :: e :: f :: g :: h :: rest =>
    match codeEscape? [a, b, c, d, e, f, g, h] with
    | some x => readBasic (x :: done) rest
    | none => .error "invalid escape"
  | '\\' :: e :: rest =>
    match simpleEscape? e with
    | some x => readBasic (x :: done) rest
    | none => .error "invalid escape"
  | c :: rest =>
    if isPlain c && c ≠ '\\' then readBasic (c :: done) rest
    else .error "invalid character in string"

def atLineEnd (input : List Char) : Bool := (skipBlank input).head? = some '\n'

/-- A string in three double quotes, after them. A backslash at the end of a line removes the line
end and the blank space after it; up to two quotes may stand before the closing ones. -/
def readMultiBasic : Bool → List Char → Document.Reader String
  | _, _, [] => .error "unterminated string"
  | true, done, ' ' :: rest => readMultiBasic true done rest
  | true, done, '\t' :: rest => readMultiBasic true done rest
  | true, done, '\n' :: rest => readMultiBasic true done rest
  | _, done, '"' :: '"' :: '"' :: '"' :: '"' :: rest => finish ('"' :: '"' :: done) rest
  | _, done, '"' :: '"' :: '"' :: '"' :: rest => finish ('"' :: done) rest
  | _, done, '"' :: '"' :: '"' :: rest => finish done rest
  | _, done, '\\' :: 'u' :: a :: b :: c :: d :: rest =>
    match codeEscape? [a, b, c, d] with
    | some x => readMultiBasic false (x :: done) rest
    | none => .error "invalid escape"
  | _, done, '\\' :: 'U' :: a :: b :: c :: d :: e :: f :: g :: h :: rest =>
    match codeEscape? [a, b, c, d, e, f, g, h] with
    | some x => readMultiBasic false (x :: done) rest
    | none => .error "invalid escape"
  | _, done, '\\' :: e :: rest =>
    match simpleEscape? e with
    | some x => readMultiBasic false (x :: done) rest
    | none =>
      if atLineEnd (e :: rest) then readMultiBasic true done rest else .error "invalid escape"
  | _, done, c :: rest =>
    if (isPlain c && c ≠ '\\') || c = '\n' then readMultiBasic false (c :: done) rest
    else .error "invalid character in string"

/-- A string in single quotes, after the opening quote: no escapes. -/
def readLiteral (done : List Char) : Document.Reader String
  | [] => .error "unterminated string"
  | '\'' :: rest => finish done rest
  | c :: rest =>
    if isPlain c then readLiteral (c :: done) rest else .error "invalid character in string"

def readMultiLiteral (done : List Char) : Document.Reader String
  | [] => .error "unterminated string"
  | '\'' :: '\'' :: '\'' :: '\'' :: '\'' :: rest => finish ('\'' :: '\'' :: done) rest
  | '\'' :: '\'' :: '\'' :: '\'' :: rest => finish ('\'' :: done) rest
  | '\'' :: '\'' :: '\'' :: rest => finish done rest
  | c :: rest =>
    if isPlain c || c = '\n' then readMultiLiteral (c :: done) rest
    else .error "invalid character in string"

/-- Drops a line end at the front of a string over several lines. -/
def dropLineEnd : List Char → List Char
  | '\n' :: rest => rest
  | rest => rest

/-- A string value, if the input begins with a quote. -/
def readString? (input : List Char) : Option (Except String (String × List Char)) :=
  match input with
  | '"' :: '"' :: '"' :: rest => some (readMultiBasic false [] (dropLineEnd rest))
  | '"' :: rest => some (readBasic [] rest)
  | '\'' :: '\'' :: '\'' :: rest => some (readMultiLiteral [] (dropLineEnd rest))
  | '\'' :: rest => some (readLiteral [] rest)
  | _ => none

end Deliberation.Toml
