import Deliberation.Document.Basic

/-!
Tables under construction. A table is opened by a header, comes into being on the path of another
header, or comes into being by a dotted key; which of these it was decides what may still be added.
-/
namespace Deliberation.Toml

/-- How a table came into being. -/
inductive Origin where
  /-- By a header of its own, or written out in place. -/
  | header
  /-- On the path of a header. -/
  | path
  /-- On the path of a dotted key. -/
  | dotted
deriving DecidableEq

inductive Node where
  | leaf (value : Document)
  | table (origin : Origin) (entries : List (String × Node))
  /-- A list of tables, opened by headers in double brackets. -/
  | series (items : List (List (String × Node)))

abbrev Entries := List (String × Node)

namespace Entries

def replace (key : String) (node : Node) (entries : Entries) : Entries :=
  entries.map fun entry => if entry.1 = key then (key, node) else entry

/-- Changes the table at the end of a path, making the tables on the way that are missing. A path of
dotted keys does not enter tables that have a header. -/
def descend (isDotted : Bool) (change : Origin → Entries → Except String Entries) :
    List String → Origin → Entries → Except String Entries
  | [], origin, entries => change origin entries
  | key :: rest, _, entries =>
    match entries.lookup key with
    | none => do
      let origin := if isDotted then Origin.dotted else .path
      let inner ← descend isDotted change rest origin []
      return entries ++ [(key, .table origin inner)]
    | some (.leaf _) => throw "a value cannot be extended"
    | some (.table origin inner) => do
      if isDotted && origin = .header then throw "duplicate key"
      let inner ← descend isDotted change rest origin inner
      return replace key (.table origin inner) entries
    | some (.series items) => do
      let last := items.getLast?.getD []
      let last ← descend isDotted change rest .header last
      return replace key (.series (items.dropLast ++ [last])) entries

/-- Adds a value under a key, dotted if the path to it is not empty. -/
def addValue (path : List String) (key : String) (value : Node) (entries : Entries) :
    Except String Entries :=
  descend true (fun origin inner =>
    if (origin == .dotted) == path.isEmpty then throw "duplicate key"
    else if (inner.lookup key).isSome then throw "duplicate key"
    else return inner ++ [(key, value)]) path .header entries

/-- Opens a table by its header. A table that exists only on the path of another header is opened
with what it holds. -/
def openTable (path : List String) (key : String) (root : Entries) : Except String Entries :=
  descend false (fun _ inner =>
    match inner.lookup key with
    | none => return inner ++ [(key, .table .header [])]
    | some (.table .path entries) => return replace key (.table .header entries) inner
    | some _ => throw "duplicate key") path .header root

def openItem (path : List String) (key : String) (root : Entries) : Except String Entries :=
  descend false (fun _ inner =>
    match inner.lookup key with
    | none => return inner ++ [(key, .series [[]])]
    | some (.series items) => return replace key (.series (items ++ [[]])) inner
    | some _ => throw "duplicate key") path .header root

def addUnder (header : List String) (path : List String) (key : String) (value : Document)
    (root : Entries) : Except String Entries :=
  descend false (fun _ inner => addValue path key (.leaf value) inner) header .header root

end Entries

mutual
def Node.document : Node → Document
  | .leaf value => value
  | .table _ entries => .table (documentEntries entries)
  | .series items => .list (documentItems items)

def documentEntries : List (String × Node) → List (String × Document)
  | [] => []
  | (key, node) :: rest => (key, node.document) :: documentEntries rest

def documentItems : List (List (String × Node)) → List Document
  | [] => []
  | entries :: rest => .table (documentEntries entries) :: documentItems rest
end

end Deliberation.Toml
