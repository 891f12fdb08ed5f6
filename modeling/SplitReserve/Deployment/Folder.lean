/-!
# An empty working folder

A deployment works in a folder in which there is nothing yet; files may lie in the folder above it.  A path is followed from the
working folder part by part: `..` leads one folder up, an empty part or `.` leads nowhere, and since there are no folders below,
a name can only be the last part.
-/

namespace SplitReserve.Deployment

/-- A file: how many folders above the working folder, and its name. -/
structure Place where
  up : Nat
  name : String
  deriving DecidableEq

namespace Place

/-- Names are bytes, at most 255 of them and none of them zero. -/
def isName (s : String) : Bool := s.utf8ByteSize ≤ 255 && !s.toList.contains '\x00'

def follow (up : Nat) : List String → Option Place
  | [] => none
  | part :: rest =>
    if part = "" || part = "." then follow up rest
    else if part = ".." then follow (up + 1) rest
    else if rest.isEmpty && isName part then some ⟨up, part⟩
    else none

/-- The file that a path leads to; a path from the root leads to none. -/
def ofPath? (path : String) : Option Place :=
  if path.startsWith "/" then none else follow 0 (path.splitOn "/")

end Place

/-- The files in the folder above the working folder. -/
structure Folder where
  above : List (String × String)

namespace Folder

/-- The text of a file. -/
def read? (f : Folder) (path : String) : Option String := do
  let place ← Place.ofPath? path
  guard (place.up = 1)
  f.above.lookup place.name

end Folder

end SplitReserve.Deployment
