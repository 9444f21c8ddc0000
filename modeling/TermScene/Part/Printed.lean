import TermScene.Part.Scan

/-!
# Printed lines

The lines of an output block as one list of parts. The break between two lines is
not a part: it stands wherever one literal directly follows another. Where a line
ends or begins with a token, an empty literal is put there to keep the break.
-/

namespace TermScene.Part

def empty : Part := .literal .printed []

/-- Whether a token stands at an end of a line. -/
def isToken? : Option Part → Bool
  | some (.token _) => true
  | _ => false

/-- What is put between two lines so that literal meets literal. -/
def junction (line next : List Part) : List Part :=
  (if isToken? line.getLast? then [empty] else []) ++
    (if isToken? next.head? then [empty] else [])

/-- The parts of printed lines, one line after another. -/
def ofLines : List Text → List Part
  | [] => []
  | [line] => scan .printed line
  | line :: next :: more =>
    scan .printed line ++ junction (scan .printed line) (scan .printed next) ++
      ofLines (next :: more)

/-- Whether a line break follows a part that stands before `rest`. -/
def breaksBefore (rest : List Part) : Bool :=
  match rest.head? with
  | some next => next.isLiteral
  | none => false

/-- The parts as they are written, a line feed wherever a line breaks. -/
def writeLines : List Part → Text
  | [] => []
  | part :: rest =>
    part.write ++ (if part.isLiteral && breaksBefore rest then ['\n'] else []) ++ writeLines rest

end TermScene.Part
