import TermScene.Text.Blank

/-!
# Paths

Paths are texts with slashes between the names. They are joined and cut as texts,
and followed from place to place by their names, without a look at any file.
-/

namespace TermScene.Path

/-- A path from a directory on: an absolute one stands for itself. -/
def join (directory path : Text) : Text :=
  if path.head? = some '/' then path
  else if directory = [] ∨ directory.getLast? = some '/' then directory ++ path
  else directory ++ '/' :: path

/-- Drops slashes and single dots from the end of a path that is written
backwards. The root keeps its slash. -/
def dropIdle : Text → Text
  | ['/'] => ['/']
  | '/' :: rest => dropIdle rest
  | '.' :: '/' :: rest => dropIdle ('/' :: rest)
  | t => t

/-- The directory that a path lies in, or a dot if it names none. -/
def parent (path : Text) : Text :=
  match dropIdle ((dropIdle path.reverse).dropWhile (· != '/')) with
  | [] => ['.']
  | directory => directory.reverse

/-- The names in a path, without empty ones. A slash at the end counts as a dot:
what it stands behind has to be a directory. -/
def names : Text → List Text
  | [] => []
  | '/' :: rest =>
    match names rest with
    | [] => [['.']]
    | more => more
  | c :: rest =>
    match rest with
    | [] => [[c]]
    | '/' :: _ => [c] :: names rest
    | _ =>
      match names rest with
      | [] => [[c]]
      | name :: more => (c :: name) :: more

/-- The place that a name leads to: a dot stays, two dots go back, and any other
name goes on. A place is the list of names on the way to it. -/
def step (place : List Text) (name : Text) : List Text :=
  if name = ['.'] then place
  else if name = ['.', '.'] then place.dropLast
  else place ++ [name]

/-- The places that names lead through, the first and the last among them. -/
def trail (place : List Text) : List Text → List (List Text)
  | [] => [place]
  | name :: more => place :: trail (step place name) more

end TermScene.Path
