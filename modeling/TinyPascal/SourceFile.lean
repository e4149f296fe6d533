import TinyPascal.Failure
import TinyPascal.Journal

/-!
# Source files

What lies at a path, and the program text it holds. A file of another extension
is read all the same, but noted in the journal.
-/

namespace TinyPascal

set_option autoImplicit false

inductive Contents where
  | nothing
  | directory
  | bytes (bytes : ByteArray)

structure SourceFile where
  path : String
  contents : Contents

namespace SourceFile

/-- A path without what names nothing at its end: slashes, and single points
behind a slash. The path is given and returned backwards. -/
def trimmed : List Char → List Char
  | '/' :: rest => trimmed rest
  | '.' :: '/' :: rest => trimmed rest
  | path => path

/-- The last part of a path, between slashes. Two points name the directory
above, which is no name of its own. -/
def fileName? (path : String) : Option (List Char) :=
  match (trimmed path.toList.reverse).takeWhile (· != '/') with
  | [] | ['.'] | ['.', '.'] => none
  | backwards => some backwards.reverse

/-- The part of a file name behind its last point. A point that only opens the
name starts no extension. -/
def extension? (path : String) : Option String := do
  let backwards := (← fileName? path).reverse
  match backwards.dropWhile (· != '.') with
  | _ :: _ :: _ => some (String.ofList (backwards.takeWhile (· != '.')).reverse)
  | _ => none

def journal (file : SourceFile) : Journal :=
  if extension? file.path = some "pas" then []
  else [⟨.warn, file.path ++ " does not have a .pas extension"⟩]

/-- The text of a file, which has to be UTF-8. -/
def read (file : SourceFile) : Except Failure String :=
  match file.contents with
  | .directory => .error (.fileRead (file.path ++ " is a directory"))
  | .nothing => .error (.io .notFound)
  | .bytes bytes =>
      match String.fromUTF8? bytes with
      | some text => .ok text
      | none => .error (.io .invalidUtf8)

def parse (file : SourceFile) : Except Failure Parse := file.read.map .ofText

end SourceFile

end TinyPascal
