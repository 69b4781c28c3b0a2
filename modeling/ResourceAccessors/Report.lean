import ResourceAccessors.TextFile
import ResourceAccessors.Outcome

/-! The report of a run: a table of comma-separated values in UTF-8, one record for every file. A
field is put in double quotes if it holds a comma, a double quote or a line end, and double quotes
in it are doubled. -/
namespace ResourceAccessors.Report
set_option autoImplicit false

def needsQuotes (field : List Char) : Bool :=
  field.any fun c => c = ',' || c = '"' || c = '\r' || c = '\n'

def doubleQuotes (field : List Char) : List Char :=
  field.flatMap fun c => if c = '"' then ['"', '"'] else [c]

def fieldChars (field : List Char) : List Char :=
  if needsQuotes field then '"' :: doubleQuotes field ++ ['"'] else field

def recordChars (fields : List String) : List Char :=
  [','].intercalate (fields.map fun f => fieldChars f.toList) ++ ['\r', '\n']

def header : List String :=
  ["source_path", "relative_path", "output_path", "status", "message"]

/-- The fields of one file; what is not known is left empty. -/
def fields (o : Outcome) : List String :=
  [o.source.toString, o.relative.toString, (o.output.map Path.toString).getD "", o.status.label,
    o.message.getD ""]

def table (outcomes : List Outcome) : List (List String) :=
  header :: outcomes.map fields

def text (outcomes : List Outcome) : String :=
  String.ofList ((table outcomes).flatMap recordChars)

/-- Writes the report, after adding the directories above it. -/
def write (fs : FileSystem) (p : Path) (outcomes : List Outcome) :
    Except FileFault Unit × FileSystem :=
  match fs.makeDirectories fs.limits.reports p.parent with
  | (.error fault, partway) => (.error fault, partway)
  | (.ok (), ready) =>
    match ready.write p (Utf8.encode (text outcomes).toList) with
    | .error fault => (.error fault, ready)
    | .ok written => (.ok (), written)

end ResourceAccessors.Report
