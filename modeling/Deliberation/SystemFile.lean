import Deliberation.Document.Json
import Deliberation.Document.Toml
import Deliberation.Form.Decode

/-!
System files. The extension decides on the format, but only once the content has been read; what is
no text cannot be read.
-/
namespace Deliberation.SystemFile

/-- In JSON a null stands for no content. -/
def jsonConventions : Form.Conventions where
  surplusItems := false
  isUnit
    | .null => true
    | _ => false
  depth := 127

/-- In TOML an empty list or table stands for no content. The reader itself limits the depth of
values; tables under headers are not limited further. -/
def tomlConventions : Form.Conventions where
  surplusItems := true
  isUnit
    | .list [] => true
    | .table [] => true
    | _ => false
  depth := 1000

/-- What follows the last point of a file name, unless that point is its first character. -/
def extension? (name : String) : Option String :=
  let back := name.toList.reverse
  let suffix := back.takeWhile (· ≠ '.')
  if suffix.length + 1 < back.length then some (String.ofList suffix.reverse) else none

def fileName (path : String) : String :=
  String.ofList (path.toList.reverse.takeWhile (· ≠ '/')).reverse

def decodeWith (path : String) (read : String → Except String Document)
    (conv : Form.Conventions) (content : String) : Except ConfigError SystemForm :=
  match read content >>= Form.system conv with
  | .ok form => .ok form
  | .error detail => .error (.parse path detail)

/-- The system in a file, given the bytes of the file if there is one. -/
def load (path : String) (bytes : Option ByteArray) : Except ConfigError SystemForm :=
  match bytes.bind String.fromUTF8? with
  | none => .error (.read path)
  | some content =>
    match extension? (fileName path) with
    | some "toml" => decodeWith path Toml.read tomlConventions content
    | some "json" => decodeWith path Json.read jsonConventions content
    | _ => .error (.unsupportedFormat path)

end Deliberation.SystemFile
