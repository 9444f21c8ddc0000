import TermScene.Directive
import TermScene.Text.Lines

/-!
# Blocks of a scenario

The lines of a scenario fall into blocks: a directive line and the lines behind it
up to the next directive line. Lines before the first directive belong to none.
A block says which value its directive has. Main statement: there is one block
for each directive line, in order (`map_line_blocksFrom`).
-/

namespace TermScene

/-- A directive with the number of its line, counted from 1, and the lines behind
it. -/
structure Block where
  line : Nat
  directive : Directive
  body : List Text
  deriving Repr, DecidableEq

namespace Block

/-- The blocks of the lines from number `n` on. -/
def blocksFrom (n : Nat) : List Text → List Block
  | [] => []
  | line :: rest =>
    match Directive.ofLine? line with
    | none => blocksFrom (n + 1) rest
    | some d =>
      ⟨n, d, rest.takeWhile fun l => !Directive.isDirective l⟩ :: blocksFrom (n + 1) rest

def blocks (t : Text) : List Block := blocksFrom 1 t.lines

/-- The value of the block's directive. `clear` has none and `output` takes every
line of the block; any other directive takes what stands on its own line, else
the next line. -/
def value (b : Block) : Text :=
  match b.directive.keyword with
  | .clear => []
  | .output => Text.joinLines (b.directive.value.toList ++ b.body)
  | _ => (b.directive.value <|> b.body.head?).getD []

/-- There is one block for each directive line, in order. -/
theorem map_line_blocksFrom (n : Nat) (ls : List Text) :
    (blocksFrom n ls).map (fun b => (b.line, b.directive)) =
      (ls.zipIdx n).filterMap fun (l, i) => (Directive.ofLine? l).map fun d => (i, d) := by
  induction ls generalizing n with
  | nil => rfl
  | cons line rest ih =>
    cases h : Directive.ofLine? line <;> simp [blocksFrom, h, ih]

end Block

end TermScene
