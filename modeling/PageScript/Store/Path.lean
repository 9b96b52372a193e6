/-!
# Paths

A path is what stands between its slashes, part by part, and whether it begins at the root.  Empty
parts and dots are kept: they lead nowhere, but they count for the length of the path, and one at
the end asks for a folder.

`Path.parents` are the folders a path leads through, from the nearest on.  The dots at the end of
a path are dropped before its last part is, so the folder above `a/.` is the one above `a`.
-/

namespace PageScript

structure Path where
  absolute : Bool
  parts : List String
deriving DecidableEq

namespace Path

/-- What stands between the slashes of a text. -/
def split : List Char → List (List Char)
  | [] => [[]]
  | c :: cs =>
    if c = '/' then [] :: split cs
    else
      match split cs with
      | [] => [[c]]
      | part :: parts => (c :: part) :: parts

def ofString (s : String) : Path :=
  match s.toList with
  | '/' :: cs => ⟨true, (split cs).map String.ofList⟩
  | cs => ⟨false, (split cs).map String.ofList⟩

def text (p : Path) : String :=
  (if p.absolute then "/" else "") ++ "/".intercalate p.parts

def isEmpty (p : Path) : Bool :=
  p.text == ""

/-- Whether a part leads nowhere. -/
def stays (part : String) : Bool :=
  part == "" || part == "."

/-- A path taken from a folder on; one that begins at the root replaces the folder. -/
def join (folder p : Path) : Path :=
  if p.absolute then p
  else
    let above := if folder.parts.getLast? = some "" then folder.parts.dropLast else folder.parts
    ⟨folder.absolute, above ++ p.parts⟩

/-- The folders that parts lead through, given in reverse. -/
def parentsFrom (absolute : Bool) : List String → List Path
  | [] => []
  | part :: above =>
    if stays part then parentsFrom absolute above
    else ⟨absolute, (above.dropWhile stays).reverse⟩ :: parentsFrom absolute above

def parents (p : Path) : List Path :=
  parentsFrom p.absolute p.parts.reverse

end Path

end PageScript
