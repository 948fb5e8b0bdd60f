import Questionnaire.Table

/-! # Files in memory

Files are kept by their places, with the folders that were made on the way to
them. Empty segments and single dots of a path count for nothing, and two dots
lead from a folder to the one above.
-/

namespace Questionnaire

structure Files where
  folders : List (List String) := []
  byPlace : List (List String × String) := []
  deriving DecidableEq, Repr

namespace Files

def segments (path : String) : List String :=
  (path.splitOn "/").filter fun s => s ≠ "" && s ≠ "."

def isFolder (f : Files) (place : List String) : Bool :=
  place.isEmpty || f.folders.contains place

/-- The place behind one more segment. -/
def step (place : List String) (segment : String) : List String :=
  if segment = ".." then place.dropLast else place ++ [segment]

/-- The places that segments pass on their way, the last one included. -/
def visited (place : List String) : List String → List (List String)
  | [] => []
  | s :: ss => step place s :: visited (step place s) ss

/-- Puts a file in its place and makes every folder on the way to it. -/
def add (path text : String) (f : Files) : Files :=
  let places := visited [] (segments path)
  { folders := places.dropLast ++ f.folders
    byPlace := (places.getLastD [], text) :: f.byPlace }

/-- The files of a table below a folder. Of two with one place the later stays. -/
def ofTable (t : Table String) (below : String) : Files :=
  t.entries.foldl (fun f e => f.add (below ++ "/" ++ e.1) e.2) {}

/-- The place that segments lead to. Only a folder has something below or above it, and
nothing is above the outermost one. -/
def resolve? (f : Files) (place : List String) : List String → Option (List String)
  | [] => some place
  | s :: ss =>
    if f.isFolder place && !(place.isEmpty && s = "..") then resolve? f (step place s) ss
    else none

/-- Paths of more bytes name no file. -/
def pathLimit : Nat := 4095

/-- The text of a file. There are no files at absolute paths. -/
def read? (f : Files) (path : String) : Option String :=
  if path.startsWith "/" || pathLimit < path.utf8ByteSize then none
  else (f.resolve? [] (segments path)).bind fun place =>
    if f.isFolder place then none else f.byPlace.lookup place

end Files

end Questionnaire
