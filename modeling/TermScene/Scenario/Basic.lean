import TermScene.Action.Meaning
import TermScene.Scenario.Block

/-!
# Scenarios

A scenario is read from its text block by block: actions in order, audio cues
with the number of actions before them, and diagnostics for refused values.
Reading never fails. Main statement: every block counts towards exactly one of
the three lists, or towards none if its meaning is nothing (`length_ofBlocks`).
-/

namespace TermScene

/-- An audio hint: the line it stands on, a path, and how many actions precede
it. -/
structure Cue where
  line : Nat
  path : Text
  beforeAction : Nat
  deriving Repr, DecidableEq

/-- A directive whose value was refused. -/
structure Diagnostic where
  line : Nat
  keyword : Keyword
  value : Text
  fault : Whole.Fault
  deriving Repr, DecidableEq

def Diagnostic.reason (d : Diagnostic) : Text := Meaning.refusal d.fault

def Diagnostic.message (d : Diagnostic) : Text :=
  "line ".toList ++ Whole.print d.line ++ ": invalid value for '".toList ++ d.keyword.text ++
    "': '".toList ++ d.value ++ "' (".toList ++ d.reason ++ ")".toList

/-- A scenario as it is read from a text. -/
structure Scenario where
  actions : List Action
  cues : List Cue
  diagnostics : List Diagnostic
  deriving DecidableEq

namespace Scenario

def empty : Scenario := ⟨[], [], []⟩

def isClean (s : Scenario) : Bool := s.diagnostics.isEmpty

/-- The scenario of some blocks, before which stand `n` actions. -/
def ofBlocks (n : Nat) : List Block → Scenario
  | [] => empty
  | b :: more =>
    match Meaning.of b.directive.keyword b.value with
    | .action a =>
      let s := ofBlocks (n + 1) more
      { s with actions := a :: s.actions }
    | .cue path =>
      let s := ofBlocks n more
      { s with cues := ⟨b.line, path, n⟩ :: s.cues }
    | .refused fault =>
      let s := ofBlocks n more
      { s with diagnostics := ⟨b.line, b.directive.keyword, b.value, fault⟩ :: s.diagnostics }
    | .nothing => ofBlocks n more

def read (t : Text) : Scenario := ofBlocks 0 (Block.blocks t)

/-- Every block counts towards exactly one list, unless its meaning is nothing. -/
theorem length_ofBlocks (n : Nat) (bs : List Block) :
    (ofBlocks n bs).actions.length + (ofBlocks n bs).cues.length +
      (ofBlocks n bs).diagnostics.length =
      (bs.filter fun b => Meaning.of b.directive.keyword b.value ≠ .nothing).length := by
  induction bs generalizing n with
  | nil => rfl
  | cons b more ih =>
    cases h : Meaning.of b.directive.keyword b.value with
    | action a => have := ih (n + 1); simp [ofBlocks, h] at this ⊢; omega
    | cue path => have := ih n; simp [ofBlocks, h] at this ⊢; omega
    | refused fault => have := ih n; simp [ofBlocks, h] at this ⊢; omega
    | nothing => have := ih n; simp [ofBlocks, h] at this ⊢; omega

end Scenario

end TermScene
