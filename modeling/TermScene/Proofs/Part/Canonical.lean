import Mathlib.Data.List.Chain
import TermScene.Proofs.Part.Decomposition
import TermScene.Proofs.Part.Joined

/-!
# Canonical parts

Parts can be written that are not read back: literals run together, empty ones are lost, and
a token may come up in a literal, or in a literal together with the token behind it. The last
can happen in one way only, because a body that runs into another opening brace begins like
the end of a color (`bare_token_iff`). Main statement: parts are read back exactly if they
are canonical, and the parts of a text always are (`scan_render_iff`).
-/

namespace TermScene

namespace FoundToken

/-! ## Literals before tokens -/

/-- The text ends in a token that is still open, whatever follows up to a closing brace. -/
def OpenEnd (t : Text) : Prop := ∃ u w, t = u ++ '%' :: '{' :: ("end:".toList ++ w) ∧ '}' ∉ w

/-- The first closing brace stands before a token or closes it. -/
theorem closing_before_token {r inner body more rest : Text} (hinner : '}' ∉ inner)
    (hbody : '}' ∉ body) (e : r ++ '%' :: '{' :: (body ++ '}' :: rest) = inner ++ '}' :: more) :
    (∃ m, r = inner ++ '}' :: m) ∨ inner = r ++ '%' :: '{' :: body := by
  rcases List.append_eq_append_iff.1 e with ⟨a, rfl, behind⟩ | ⟨a, rfl, behind⟩
  · have ha : '}' ∉ a := fun mem => hinner (List.mem_append_right r mem)
    have hbody' : '}' ∉ '%' :: '{' :: body := by simp [hbody]
    exact .inr (congrArg (r ++ ·) (Text.cut_unique ha hbody' behind.symm).1)
  · cases a with
    | nil => cases behind
    | cons c a =>
      injection behind with hc
      subst hc
      exact .inl ⟨a, rfl⟩

/-- No token starts in a literal before a token, however that is spelled, if none starts in
the literal alone and the literal leaves none open. -/
theorem bare_token_iff {run body : Text} (closed : '}' ∉ body) (rest : Text) :
    Bare run ('%' :: '{' :: (body ++ '}' :: rest)) ↔ Bare run [] ∧ ¬ OpenEnd run := by
  constructor
  · intro h
    refine ⟨fun ahead r inner more token e start => ?_, ?_⟩
    · rw [List.append_nil] at start
      refine h ahead r inner (more ++ '%' :: '{' :: (body ++ '}' :: rest)) token e ?_
      rw [start]
      simp
    · rintro ⟨u, w, rfl, hw⟩
      refine h u ('{' :: ("end:".toList ++ w)) ("end:".toList ++ (w ++ '%' :: '{' :: body)) rest
        .endColor rfl (by simp) ?_ (.endColorOf _)
      simp [hw, closed]
  · rintro ⟨bare, shut⟩ ahead r inner more token e start hinner spelled
    cases r with
    | nil => cases start
    | cons c r =>
      injection start with hc start
      subst hc
      rcases closing_before_token hinner closed start with ⟨m, rfl⟩ | rfl
      · exact bare ahead ('{' :: (inner ++ '}' :: m)) inner m token e (List.append_nil _) hinner
          spelled
      · obtain ⟨-, w, rfl⟩ := Token.exists_of_ofBody?_brace spelled.ofBody?
        refine shut ⟨ahead, w, e, fun mem => hinner ?_⟩
        simp [mem]

end FoundToken

namespace Part

open FoundToken

/-! ## Canonical parts -/

/-- Parts as they are made of a text. The literals are of one kind and stand apart; an empty
one stands alone. No token starts within a literal, and a literal in front of a token leaves
none open. -/
structure Canonical (kind : LiteralKind) (parts : List Part) : Prop where
  nonempty : parts ≠ []
  suits : ∀ part ∈ parts, part.Suits kind
  apart : parts.IsChain fun a b => a.isLiteral = true → b.isLiteral = false
  filled : .literal kind [] ∈ parts → parts = [.literal kind []]
  bare : ∀ text, .literal kind text ∈ parts → Bare text []
  shut : parts.IsChain fun a b => ∀ text, a = .literal kind text → b.isLiteral = false →
    ¬ OpenEnd text

/-- Canonical parts without empty literals, one part at a time. -/
inductive Regular (kind : LiteralKind) : List Part → Prop
  | nil : Regular kind []
  | token {token rest} (next : Regular kind rest) : Regular kind (.token token :: rest)
  | last {text} (filled : text ≠ []) (bare : Bare text []) : Regular kind [.literal kind text]
  | literal {text token rest} (filled : text ≠ []) (bare : Bare text []) (shut : ¬ OpenEnd text)
      (next : Regular kind (.token token :: rest)) :
      Regular kind (.literal kind text :: .token token :: rest)

theorem regular_iff {kind : LiteralKind} {parts : List Part} :
    Regular kind parts ↔ (∀ part ∈ parts, part.Suits kind) ∧
      (parts.IsChain fun a b => a.isLiteral = true → b.isLiteral = false) ∧
      .literal kind [] ∉ parts ∧ (∀ text, .literal kind text ∈ parts → Bare text []) ∧
      parts.IsChain fun a b => ∀ text, a = .literal kind text → b.isLiteral = false →
        ¬ OpenEnd text := by
  constructor
  · intro h
    induction h with
    | nil => simp
    | token next ih => simpa [List.isChain_cons, Suits, isLiteral] using ih
    | last filled bare => simpa [List.isChain_cons, Suits, isLiteral, Ne.symm filled] using bare
    | literal filled bare shut next ih =>
      simpa [List.isChain_cons, Suits, isLiteral, filled, bare, shut] using ih
  · rintro ⟨suits, apart, filled, bare, shut⟩
    induction parts with
    | nil => exact .nil
    | cons a rest ih =>
      obtain ⟨here, suits⟩ := List.forall_mem_cons.1 suits
      obtain ⟨meets, apart⟩ := List.isChain_cons.1 apart
      obtain ⟨meets', shut⟩ := List.isChain_cons.1 shut
      simp only [List.mem_cons, not_or] at filled bare
      have next := ih suits apart filled.2 (fun text mem => bare text (.inr mem)) shut
      cases a with
      | token t => exact .token next
      | literal k text =>
        obtain rfl : k = kind := here
        have some : text ≠ [] := fun e => filled.1 (by rw [e])
        cases rest with
        | nil => exact .last some (bare text (.inl rfl))
        | cons b rest =>
          have token := meets b rfl rfl
          cases b with
          | literal k text => cases token
          | token t =>
            exact .literal some (bare text (.inl rfl)) (meets' _ rfl text rfl token) next

theorem canonical_iff {kind : LiteralKind} {parts : List Part} :
    Canonical kind parts ↔
      parts = [.literal kind []] ∨ parts ≠ [] ∧ Regular kind parts := by
  constructor
  · intro h
    by_cases empty : .literal kind [] ∈ parts
    · exact .inl (h.filled empty)
    · exact .inr ⟨h.nonempty, regular_iff.2 ⟨h.suits, h.apart, empty, h.bare, h.shut⟩⟩
  · rintro (rfl | ⟨nonempty, regular⟩)
    · refine ⟨List.cons_ne_nil _ _, List.forall_mem_singleton.2 rfl, List.isChain_singleton _,
        fun _ => rfl, fun text mem => ?_, List.isChain_singleton _⟩
      obtain rfl : text = [] := by simpa using mem
      exact bare_nil []
    · obtain ⟨suits, apart, filled, bare, shut⟩ := regular_iff.1 regular
      exact ⟨nonempty, suits, apart, fun empty => absurd empty filled, bare, shut⟩

/-! ## Reading what is written -/

theorem bare_write_iff {run : Text} (t : Token) (rest : Text) :
    Bare run (t.write ++ rest) ↔ Bare run [] ∧ ¬ OpenEnd run := by
  rw [t.write_append]
  exact bare_token_iff t.closing_not_mem_body rest

theorem ofRun_of_ne_nil (kind : LiteralKind) {run : Text} (h : run ≠ []) :
    ofRun kind run = [.literal kind run] := if_neg h

/-- Regular parts are the runs and tokens found in what is written for them. -/
theorem Regular.ofFound_render {kind : LiteralKind} {parts : List Part}
    (h : Regular kind parts) :
    ofFound kind (findTokens (render parts)).1 (findTokens (render parts)).2 = parts := by
  induction h with
  | nil => rfl
  | @token t rest next ih =>
    have written : render (.token t :: rest) = t.write ++ render rest := rfl
    rw [written, findTokens_write, ofFound_cons, ih]
    rfl
  | @last text filled bare =>
    have written : render [.literal kind text] = text := List.append_nil text
    rw [written, (Decomposes.last bare).findTokens]
    exact ofRun_of_ne_nil kind filled
  | @literal text t rest filled bare shut next ih =>
    have written : render (.token t :: rest) = t.write ++ render rest := rfl
    have run := findTokens_append ((bare_write_iff t (render rest)).2 ⟨bare, shut⟩)
    rw [findTokens_write, consRun, List.append_nil] at run
    rw [written, findTokens_write, ofFound_cons] at ih
    have whole : render (.literal kind text :: .token t :: rest) =
        text ++ (t.write ++ render rest) := rfl
    rw [whole, run, ofFound_cons, ofRun_of_ne_nil kind filled]
    exact congrArg (.literal kind text :: ·) ih

theorem scan_render {kind : LiteralKind} {parts : List Part} (h : Canonical kind parts) :
    scan kind (render parts) = parts := by
  rcases canonical_iff.1 h with rfl | ⟨nonempty, regular⟩
  · rfl
  · have same := regular.ofFound_render
    have some : render parts ≠ [] := by
      intro none
      rw [none] at same
      exact nonempty same.symm
    rw [scan_eq_ofFound kind some, same]

theorem regular_of_decomposes (kind : LiteralKind) {t last : Text} {found : List FoundToken}
    (h : Decomposes t found last) : Regular kind (ofFound kind found last) := by
  induction h with
  | @last run bare =>
    by_cases empty : run = []
    · rw [empty]
      exact .nil
    · have one : ofFound kind [] run = [.literal kind run] := ofRun_of_ne_nil kind empty
      rw [one]
      exact .last empty bare
  | @token before body rest token found last bare closed spelled next ih =>
    rw [ofFound_cons]
    by_cases empty : before = []
    · rw [empty]
      exact .token ih
    · rw [ofRun_of_ne_nil kind empty]
      obtain ⟨bare, shut⟩ := (bare_token_iff closed rest).1 bare
      exact .literal empty bare shut (.token ih)

theorem canonical_scan (kind : LiteralKind) (t : Text) : Canonical kind (scan kind t) := by
  rw [canonical_iff]
  by_cases empty : t = []
  · subst empty
    exact .inl rfl
  · refine .inr ⟨scan_ne_nil kind t, ?_⟩
    rw [scan_eq_ofFound kind empty]
    exact regular_of_decomposes kind (decomposes_findTokens t)

/-- **Parts are read back exactly if they are canonical**, and the parts of a text always are:
writing them brings the text into a form that writes itself. -/
theorem scan_render_iff (kind : LiteralKind) (parts : List Part) :
    (scan kind (render parts) = parts ↔ Canonical kind parts) ∧
      ∀ t, Canonical kind (scan kind t) ∧
        scan kind (render (scan kind t)) = scan kind t ∧
        render (scan kind (render (scan kind t))) = render (scan kind t) := by
  refine ⟨⟨fun same => same ▸ canonical_scan kind _, scan_render⟩, fun t => ?_⟩
  have same := scan_render (canonical_scan kind t)
  exact ⟨canonical_scan kind t, same, congrArg render same⟩

/-- A literal that leaves a token open takes in the token behind it. -/
example : scan .printed (render [.literal .printed "%\x7bend:".toList, .token (.delay 5)]) =
    [.token .endColor] := by decide

end Part

end TermScene
