import TermScene.Proofs.Scenario.Written

/-!
# What directive lines yield

Of a block only three things count: the number of its line, its keyword and its value
(`Entry`). They say what the directive yields, once it is known how many actions stand
before it, and a scenario is the yields of its entries sorted by kind
(`ofBlocks_eq_collect`). So a scenario can be compared with another one entry by entry:
entries with other line numbers, behind more actions, yield the same at other places
(`yields_renumber`).
-/

namespace TermScene

open Text

/-- A directive line by its number, with the keyword and the value of the directive. -/
structure Entry where
  line : Nat
  keyword : Keyword
  value : Text
  deriving Repr, DecidableEq

def Block.entry (b : Block) : Entry := ⟨b.line, b.directive.keyword, b.value⟩

/-- What a directive line adds to a scenario. -/
inductive Yield where
  | action (a : Action)
  | cue (c : Cue)
  | diagnostic (d : Diagnostic)
  | nothing
  deriving DecidableEq

namespace Yield

def action? : Yield → Option Action
  | action a => some a
  | _ => none

def cue? : Yield → Option Cue
  | cue c => some c
  | _ => none

def diagnostic? : Yield → Option Diagnostic
  | diagnostic d => some d
  | _ => none

/-- The actions among yields. -/
def actions (ys : List Yield) : List Action := ys.filterMap action?

/-- The scenario that yields make up, each kind in its order. -/
def collect (ys : List Yield) : Scenario :=
  ⟨actions ys, ys.filterMap cue?, ys.filterMap diagnostic?⟩

/-- The yield at a line with another number and with more actions ahead of it. -/
def relocate (number : Nat → Nat) (ahead : Nat) : Yield → Yield
  | action a => action a
  | cue c => cue ⟨number c.line, c.path, ahead + c.beforeAction⟩
  | diagnostic d => diagnostic { d with line := number d.line }
  | nothing => nothing

theorem action?_eq_some_iff {y : Yield} {a : Action} : y.action? = some a ↔ y = action a := by
  cases y <;> simp [action?]

theorem cue?_eq_some_iff {y : Yield} {c : Cue} : y.cue? = some c ↔ y = cue c := by
  cases y <;> simp [cue?]

theorem diagnostic?_eq_some_iff {y : Yield} {d : Diagnostic} :
    y.diagnostic? = some d ↔ y = diagnostic d := by
  cases y <;> simp [diagnostic?]

theorem actions_cons (y : Yield) (ys : List Yield) :
    actions (y :: ys) = y.action?.toList ++ actions ys := by
  unfold actions
  cases h : y.action? with
  | none => rw [List.filterMap_cons_none h]; rfl
  | some a => rw [List.filterMap_cons_some h]; rfl

theorem action?_relocate (number : Nat → Nat) (ahead : Nat) (y : Yield) :
    (y.relocate number ahead).action? = y.action? := by
  cases y <;> rfl

theorem cue?_relocate (number : Nat → Nat) (ahead : Nat) (y : Yield) :
    (y.relocate number ahead).cue? =
      y.cue?.map fun c => ⟨number c.line, c.path, ahead + c.beforeAction⟩ := by
  cases y <;> rfl

theorem diagnostic?_relocate (number : Nat → Nat) (ahead : Nat) (y : Yield) :
    (y.relocate number ahead).diagnostic? =
      y.diagnostic?.map fun d => { d with line := number d.line } := by
  cases y <;> rfl

end Yield

namespace Scenario

/-- A scenario behind another one. -/
def append (s t : Scenario) : Scenario :=
  ⟨s.actions ++ t.actions, s.cues ++ t.cues, s.diagnostics ++ t.diagnostics⟩

/-- The scenario with its lines numbered otherwise and with more actions ahead of it. -/
def relocate (number : Nat → Nat) (ahead : Nat) (s : Scenario) : Scenario where
  actions := s.actions
  cues := s.cues.map fun c => ⟨number c.line, c.path, ahead + c.beforeAction⟩
  diagnostics := s.diagnostics.map fun d => { d with line := number d.line }

end Scenario

namespace Yield

theorem collect_append (ys zs : List Yield) :
    collect (ys ++ zs) = (collect ys).append (collect zs) := by
  simp only [collect, actions, Scenario.append, List.filterMap_append]

theorem collect_relocate (number : Nat → Nat) (ahead : Nat) (ys : List Yield) :
    collect (ys.map (relocate number ahead)) = (collect ys).relocate number ahead := by
  simp only [collect, actions, Scenario.relocate, List.filterMap_map, List.map_filterMap,
    Function.comp_def, action?_relocate, cue?_relocate, diagnostic?_relocate]

end Yield

namespace Entry

open Yield

/-- What an entry yields that has `before` actions before it. -/
def yield (before : Nat) (e : Entry) : Yield :=
  match Meaning.of e.keyword e.value with
  | .action a => .action a
  | .cue path => .cue ⟨e.line, path, before⟩
  | .refused fault => .diagnostic ⟨e.line, e.keyword, e.value, fault⟩
  | .nothing => .nothing

/-- What entries yield one after another, the first of which has `before` actions before
it. -/
def yields (before : Nat) : List Entry → List Yield
  | [] => []
  | e :: more =>
    e.yield before :: yields (before + (e.yield before).action?.toList.length) more

def renumber (number : Nat → Nat) (e : Entry) : Entry := { e with line := number e.line }

theorem yields_append (n : Nat) (es fs : List Entry) :
    yields n (es ++ fs) = yields n es ++ yields (n + (actions (yields n es)).length) fs := by
  induction es generalizing n with
  | nil => rfl
  | cons e more ih =>
    rw [List.cons_append, yields, yields, ih, actions_cons, List.length_append, List.cons_append,
      Nat.add_assoc]

theorem yield_renumber (number : Nat → Nat) (ahead n : Nat) (e : Entry) :
    (e.renumber number).yield (ahead + n) = (e.yield n).relocate number ahead := by
  simp only [yield, renumber]
  cases Meaning.of e.keyword e.value <;> rfl

/-- Renumbered entries behind more actions yield the same, relocated. -/
theorem yields_renumber (number : Nat → Nat) (ahead n : Nat) (es : List Entry) :
    yields (ahead + n) (es.map (renumber number)) = (yields n es).map (relocate number ahead) := by
  induction es generalizing n with
  | nil => rfl
  | cons e more ih =>
    rw [List.map_cons, yields, yields, List.map_cons, yield_renumber, action?_relocate,
      Nat.add_assoc, ih]

theorem length_yields (n : Nat) (es : List Entry) : (yields n es).length = es.length := by
  induction es generalizing n with
  | nil => rfl
  | cons e more ih => rw [yields, List.length_cons, ih, List.length_cons]

/-- Each entry has the actions before it that the entries before it have yielded. -/
theorem getElem?_yields (n i : Nat) (es : List Entry) :
    (yields n es)[i]? =
      es[i]?.map (yield (n + (actions ((yields n es).take i)).length)) := by
  induction es generalizing n i with
  | nil => rfl
  | cons e more ih =>
    cases i with
    | zero => rfl
    | succ i =>
      rw [yields, List.getElem?_cons_succ, List.getElem?_cons_succ, List.take_succ_cons,
        actions_cons, List.length_append, ← Nat.add_assoc, ih]

end Entry

namespace Scenario

open Entry Yield

/-- A scenario is the yields of its entries. -/
theorem ofBlocks_eq_collect (n : Nat) (bs : List Block) :
    ofBlocks n bs = collect (yields n (bs.map Block.entry)) := by
  induction bs generalizing n with
  | nil => rfl
  | cons b more ih =>
    rw [List.map_cons, yields, ofBlocks]
    have first : b.entry.yield n = match Meaning.of b.directive.keyword b.value with
        | .action a => .action a
        | .cue path => .cue ⟨b.line, path, n⟩
        | .refused fault => .diagnostic ⟨b.line, b.directive.keyword, b.value, fault⟩
        | .nothing => .nothing := rfl
    rw [first]
    cases Meaning.of b.directive.keyword b.value with
    | action a => simp only [ih]; rfl
    | cue path => simp only [ih]; rfl
    | refused fault => simp only [ih]; rfl
    | nothing => simp only [ih]; rfl

/-- The entries of lines that are numbered from `n` on. -/
def entriesFrom (n : Nat) (ls : List Text) : List Entry := (Block.blocksFrom n ls).map Block.entry

theorem read_eq_collect (t : Text) : read t = collect (yields 0 (entriesFrom 1 t.lines)) :=
  ofBlocks_eq_collect 0 _

theorem entriesFrom_append_plain {body : List Text}
    (h : ∀ l ∈ body, Directive.isDirective l = false) (n : Nat) (rest : List Text) :
    entriesFrom n (body ++ rest) = entriesFrom (n + body.length) rest :=
  congrArg (List.map Block.entry) (Block.blocksFrom_append h n rest)

theorem entriesFrom_plain {l : Text} (h : Directive.isDirective l = false) (n : Nat)
    (rest : List Text) : entriesFrom n (l :: rest) = entriesFrom (n + 1) rest :=
  entriesFrom_append_plain (List.forall_mem_singleton.2 h) n rest

theorem entriesFrom_directive {l : Text} {d : Directive} (h : Directive.ofLine? l = some d)
    (n : Nat) (rest : List Text) : entriesFrom n (l :: rest) =
      Block.entry ⟨n, d, rest.takeWhile fun l => !Directive.isDirective l⟩ ::
        entriesFrom (n + 1) rest := by
  rw [entriesFrom, Block.blocksFrom, h]
  rfl

theorem line_of_mem_entriesFrom {n : Nat} {ls : List Text} {e : Entry}
    (h : e ∈ entriesFrom n ls) : n ≤ e.line ∧ e.line < n + ls.length := by
  induction ls generalizing n with
  | nil => cases h
  | cons l ls ih =>
    rw [List.length_cons]
    have behind (h : e ∈ entriesFrom (n + 1) ls) : n ≤ e.line ∧ e.line < n + (ls.length + 1) := by
      have := ih h
      omega
    cases lexed : Directive.ofLine? l with
    | none =>
      rw [entriesFrom_plain (Directive.isDirective_eq_false_iff.2 lexed)] at h
      exact behind h
    | some d =>
      rw [entriesFrom_directive lexed] at h
      rcases List.mem_cons.1 h with rfl | h
      · exact ⟨Nat.le_refl n, Nat.lt_add_of_pos_right (Nat.succ_pos _)⟩
      · exact behind h

end Scenario

end TermScene
