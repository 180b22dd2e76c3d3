import Deliberation.Document.Toml.Scalar
import Deliberation.Document.Toml.Text
import Deliberation.Document.Toml.Tree

/-!
Reading TOML, version 1.0: headers and key-value lines that fill a tree of tables. Values may be
nested and keys dotted less than eighty deep.
-/
namespace Deliberation.Toml

/-- Fewer than this many levels of nested values, or parts of a dotted key. -/
def depthLimit : Nat := 80

def isBareKeyChar (c : Char) : Bool := c.isAlphanum || c = '-' || c = '_'

def readSimpleKey : Document.Reader String
  | '"' :: rest => readBasic [] rest
  | '\'' :: rest => readLiteral [] rest
  | input =>
    let key := input.takeWhile isBareKeyChar
    if key.isEmpty then .error "expected a key"
    else .ok (String.ofList key, input.dropWhile isBareKeyChar)

/-- The parts of a dotted key, with blank space around the points. -/
def readKeyParts : Nat → Document.Reader (List String)
  | 0, _ => .error "the key has too many parts"
  | parts + 1, input => do
    let (key, rest) ← readSimpleKey (skipBlank input)
    match skipBlank rest with
    | '.' :: rest =>
      let (keys, rest) ← readKeyParts parts rest
      return (key :: keys, rest)
    | rest => return ([key], rest)

/-- A key as the path to its table and the name in it. -/
def readKey : Document.Reader (List String × String) := fun input => do
  let (keys, rest) ← readKeyParts (depthLimit - 1) input
  return ((keys.dropLast, keys.getLast?.getD ""), rest)

mutual
/-- Reads a value; `size` bounds the length of the input and `depth` the levels of nesting left. -/
def readValue : Nat → Nat → Document.Reader Document
  | 0, _, _ => .error "unexpected end"
  | size + 1, depth, input =>
    match readString? input with
    | some result => result.map fun (s, rest) => (.text s, rest)
    | none =>
      match input with
      | '[' :: rest =>
        if depth = 0 then .error "nested too deep" else readItems size (depth - 1) [] rest
      | '\x7b' :: rest =>
        if depth = 0 then .error "nested too deep"
        else
          match skipBlank rest with
          | '\x7d' :: rest => .ok (.table [], rest)
          | rest => readPairs size (depth - 1) [] rest
      | input => readScalar input

/-- Reads the rest of a list. Line ends and comments may stand between items, and a comma after the
last one. -/
def readItems : Nat → Nat → List Document → Document.Reader Document
  | 0, _, _, _ => .error "unexpected end"
  | size + 1, depth, done, input => do
    match ← skipGaps false input with
    | ']' :: rest => return (.list done.reverse, rest)
    | rest =>
      let (item, rest) ← readValue size depth rest
      match ← skipGaps false rest with
      | ',' :: rest => readItems size depth (item :: done) rest
      | ']' :: rest => return (.list (item :: done).reverse, rest)
      | _ => throw "expected a comma or the end of a list"

/-- Reads the rest of a table written in place, from a key on. -/
def readPairs : Nat → Nat → Entries → Document.Reader Document
  | 0, _, _, _ => .error "unexpected end"
  | size + 1, depth, entries, input => do
    let ((path, key), rest) ← readKey input
    match rest with
    | '=' :: rest =>
      let (value, rest) ← readValue size depth (skipBlank rest)
      let entries ← entries.addValue path key (.leaf value)
      match skipBlank rest with
      | ',' :: rest => readPairs size depth entries rest
      | '\x7d' :: rest => return (.table (documentEntries entries), rest)
      | _ => throw "expected a comma or the end of a table"
    | _ => throw "expected an equals sign"
end

/-- The tree so far, and the header of the table that lines are added to. -/
structure Progress where
  root : Entries := []
  header : List String := []

def readTableHeader (p : Progress) (input : List Char) : Except String (Progress × List Char) := do
  let ((path, key), rest) ← readKey input
  match rest with
  | ']' :: rest => return ({ root := ← p.root.openTable path key, header := path ++ [key] }, rest)
  | _ => throw "expected the end of a header"

def readItemHeader (p : Progress) (input : List Char) : Except String (Progress × List Char) := do
  let ((path, key), rest) ← readKey input
  match rest with
  | ']' :: ']' :: rest =>
    return ({ root := ← p.root.openItem path key, header := path ++ [key] }, rest)
  | _ => throw "expected the end of a header"

def readPair (p : Progress) (input : List Char) : Except String (Progress × List Char) := do
  let ((path, key), rest) ← readKey input
  match rest with
  | '=' :: rest =>
    let (value, rest) ← readValue (rest.length + 1) (depthLimit - 1) (skipBlank rest)
    return ({ p with root := ← p.root.addUnder p.header path key value }, rest)
  | _ => throw "expected an equals sign"

/-- Reads line after line; `size` bounds the length of the input. -/
def readLines : Nat → Progress → List Char → Except String Progress
  | 0, p, _ => .ok p
  | size + 1, p, input =>
    match skipBlank input with
    | [] => .ok p
    | '\n' :: rest => readLines size p rest
    | '#' :: rest => do readLines size p (← endLine ('#' :: rest))
    | '[' :: '[' :: rest => do
      let (p, rest) ← readItemHeader p rest
      readLines size p (← endLine rest)
    | '[' :: rest => do
      let (p, rest) ← readTableHeader p rest
      readLines size p (← endLine rest)
    | rest => do
      let (p, rest) ← readPair p rest
      readLines size p (← endLine rest)

def read (text : String) : Except String Document := do
  let input := normalize text.toList
  let p ← readLines (input.length + 1) {} input
  return .table (documentEntries p.root)

end Deliberation.Toml
