import LayeredConfig.Value

/-!
# Files

The files that a configuration can be read from, addressed by paths relative to a working
directory. Every directory above a file or above the working directory exists.

A path is followed segment by segment, so `sub/../k.yml` needs the directory `sub`, and a path
that leads through a file leads nowhere. The written form of a path inside an error has its empty
and `.` segments left out, and nothing else changed.
-/

namespace LayeredConfig

/-- What stands at a location. -/
inductive Contents where
  | bytes (content : List UInt8)
  /-- A file whose text is known to parse to this document and to hold no template expression. -/
  | document (value : Value)
  | directory
deriving Repr, Inhabited

/-- An absolute location, as the names on the way from the top. -/
abbrev Location := List String

/-- The files and directories that exist. -/
structure FileSystem where
  /-- The working directory. -/
  home : Location
  files : List (Location × Contents)
deriving Inhabited

namespace FileSystem

/-- The segments between the slashes of a path. -/
def segments (path : String) : List String := (path.toList.splitOn '/').map String.ofList

/-- Where a path starts, and the segments to follow from there. -/
def start (fs : FileSystem) (path : String) : Location × List String :=
  match segments path with
  | "" :: rest => ([], rest)
  | names => (fs.home, names)

/-- Whether a location is a directory: a declared one, or one above something that exists. -/
def isDirectory (fs : FileSystem) (l : Location) : Bool :=
  l.isPrefixOf fs.home || fs.files.any fun (place, contents) ↦
    match contents with
    | .directory => l.isPrefixOf place
    | _ => l.isPrefixOf place && l.length < place.length

/-- What stands at a location. -/
def at? (fs : FileSystem) (l : Location) : Option Contents :=
  match fs.files.find? (·.1 == l) with
  | some (_, contents) => some contents
  | none => if fs.isDirectory l then some .directory else none

/-- Follows segments from a location; what a segment is looked up in has to be a directory. -/
def follow (fs : FileSystem) (l : Location) : List String → Option Location
  | [] => some l
  | segment :: rest =>
    if !fs.isDirectory l then none
    else if segment = "" ∨ segment = "." then fs.follow l rest
    else if segment = ".." then fs.follow l.dropLast rest
    else fs.follow (l ++ [segment]) rest

/-- The location that a path leads to, whether or not something stands there. -/
def locate (fs : FileSystem) (path : String) : Option Location :=
  if path.isEmpty then none else
    let (l, rest) := fs.start path
    fs.follow l rest

/-- What a path leads to. -/
def find? (fs : FileSystem) (path : String) : Option Contents := (fs.locate path).bind fs.at?

/-- Whether a path leads to a file or a directory. -/
def exists? (fs : FileSystem) (path : String) : Bool := (fs.find? path).isSome

/-- The location that a path names by its text alone, its `.` and `..` segments worked out. -/
def normalize (fs : FileSystem) (path : String) : Location :=
  let (l, rest) := fs.start path
  rest.foldl (fun l segment ↦
    if segment = "" ∨ segment = "." then l
    else if segment = ".." then l.dropLast
    else l ++ [segment]) l

/-- The written form of a location. -/
def locationText (l : Location) : String := "/" ++ "/".intercalate l

/-- The directory that the file at a path stands in. -/
def parentText (fs : FileSystem) (path : String) : String :=
  locationText (fs.normalize path).dropLast

/-- The written form of a path: the segments that say something. -/
def pathText (path : String) : String :=
  let parts := (segments path).filter fun s ↦ s ≠ "" ∧ s ≠ "."
  let root :=
    if path.startsWith "//" && !path.startsWith "///" then "//"
    else if path.startsWith "/" then "/" else ""
  let text := root ++ "/".intercalate parts
  if text.isEmpty then "." else text

/-- Writes a file or a directory. -/
def write (fs : FileSystem) (path : String) (contents : Contents) : FileSystem :=
  let l := fs.normalize path
  { fs with files := fs.files.filter (·.1 != l) ++ [(l, contents)] }

/-- Deletes a file or a directory. -/
def delete (fs : FileSystem) (path : String) : FileSystem :=
  let l := fs.normalize path
  { fs with files := fs.files.filter (·.1 != l) }

/-- The text of bytes in UTF-8, line ends of all conventions turned into `\n`. -/
def decodeText? (bytes : List UInt8) : Option String :=
  (String.fromUTF8? ⟨bytes.toArray⟩).map fun s ↦ String.ofList (unifyLines s.toList)
where
  /-- Line ends of all conventions turned into one. -/
  unifyLines : List Char → List Char
    | '\r' :: '\n' :: rest => '\n' :: unifyLines rest
    | '\r' :: rest => '\n' :: unifyLines rest
    | c :: rest => c :: unifyLines rest
    | [] => []

end FileSystem

end LayeredConfig
