import TermScene.Proofs.Part.Spelling

/-!
# A text has one decomposition

Tokens are told apart from the text around them by two rules: each is spelled like one,
and none starts within a literal run, whatever the run is followed by. Where several
candidates overlap, the rules leave the leftmost. Main statements: they leave exactly one
decomposition, which the search finds (`decomposes_iff`), and the parts of a text are its
tokens and the runs between them (`scan_decomposition`).
-/

namespace TermScene

namespace FoundToken

/-! ## Runs in which no token starts -/

/-- No token starts within the run, where `behind` is the text that follows it: no opening
`%` and brace, read up to the first closing brace behind them, are spelled like one. -/
def Bare (run behind : Text) : Prop :=
  ∀ ahead rest body more token, run = ahead ++ '%' :: rest →
    rest ++ behind = '{' :: (body ++ '}' :: more) → '}' ∉ body → ¬ Token.Spells body token

theorem bare_nil (behind : Text) : Bare [] behind := by
  intro ahead rest body more token e
  cases ahead <;> cases e

theorem bare_cons {c : Char} {run behind : Text} :
    Bare (c :: run) behind ↔ atStart? (c :: (run ++ behind)) = none ∧ Bare run behind := by
  constructor
  · intro h
    refine ⟨?_, fun ahead rest body more token e => h (c :: ahead) rest body more token ?_⟩
    · cases start : atStart? (c :: (run ++ behind)) with
      | none => rfl
      | some p =>
        obtain ⟨body, token⟩ := p
        obtain ⟨⟨more, e⟩, closed, ht⟩ := atStart?_eq_some_iff.1 start
        injection e with hc e
        exact absurd (Token.spells_of_ofBody? ht)
          (h [] run body more token (congrArg (· :: run) hc) e closed)
    · rw [e]
      rfl
  · rintro ⟨start, bare⟩ ahead rest body more token e behind closed spelled
    cases ahead with
    | nil =>
      injection e with hc e
      subst hc e
      rw [behind, atStart?_eq_some_iff.2 ⟨⟨more, rfl⟩, closed, spelled.ofBody?⟩] at start
      cases start
    | cons d ahead =>
      injection e with _ e
      exact bare ahead rest body more token e behind closed spelled

/-- Puts a run before the first literal run. -/
def consRun (run : Text) : List FoundToken × Text → List FoundToken × Text
  | ([], last) => ([], run ++ last)
  | (f :: more, last) => ({ f with before := run ++ f.before } :: more, last)

/-- A run in which no token starts goes to the literal run behind it. -/
theorem findTokens_append {run behind : Text} (h : Bare run behind) :
    findTokens (run ++ behind) = consRun run (findTokens behind) := by
  induction run with
  | nil =>
    rw [List.nil_append]
    obtain ⟨found, last⟩ := findTokens behind
    cases found <;> rfl
  | cons c run ih =>
    obtain ⟨start, bare⟩ := bare_cons.1 h
    rw [List.cons_append, findTokens_cons_of_none start, ih bare]
    obtain ⟨found, last⟩ := findTokens behind
    cases found <;> rfl

/-! ## Decompositions -/

/-- A text is made of literal runs with tokens between them: every token is spelled like
one and ends at the first closing brace, and no token starts within a run. -/
inductive Decomposes : Text → List FoundToken → Text → Prop
  | last {run} (bare : Bare run []) : Decomposes run [] run
  | token {before body rest token found last}
      (bare : Bare before ('%' :: '{' :: (body ++ '}' :: rest)))
      (closed : '}' ∉ body) (spelled : Token.Spells body token)
      (next : Decomposes rest found last) :
      Decomposes (before ++ '%' :: '{' :: (body ++ '}' :: rest))
        (⟨before, body, token⟩ :: found) last

/-- The search finds any decomposition. -/
theorem Decomposes.findTokens {t last : Text} {found : List FoundToken}
    (h : Decomposes t found last) : findTokens t = (found, last) := by
  induction h with
  | @last run bare =>
    have run' := findTokens_append bare
    rw [List.append_nil] at run'
    rw [run']
    exact congrArg (Prod.mk []) (List.append_nil run)
  | @token before body rest token found last bare closed spelled next ih =>
    rw [findTokens_append bare, findTokens_of_atStart closed spelled.ofBody?, ih, consRun,
      List.append_nil]

theorem Decomposes.eq_last {t last : Text} (h : Decomposes t [] last) : last = t := by
  cases h
  rfl

/-- A character that starts no token may be put before a decomposition. -/
theorem Decomposes.cons {c : Char} {t last : Text} {found : List FoundToken}
    (start : atStart? (c :: t) = none) (h : Decomposes t found last) :
    Decomposes (c :: t) (consLiteral c (found, last)).1 (consLiteral c (found, last)).2 := by
  cases h with
  | last bare =>
    rw [← List.append_nil t] at start
    exact .last (bare_cons.2 ⟨start, bare⟩)
  | token bare closed spelled next =>
    exact .token (bare_cons.2 ⟨start, bare⟩) closed spelled next

theorem decomposes_findTokens (t : Text) :
    Decomposes t (findTokens t).1 (findTokens t).2 := by
  induction t using induction with
  | nil => exact .last (bare_nil [])
  | literal c rest start ih =>
    rw [findTokens_cons_of_none start]
    exact ih.cons start
  | token body token rest closed ht ih =>
    rw [findTokens_of_atStart closed ht]
    exact .token (bare_nil _) closed (Token.spells_of_ofBody? ht) ih

/-- A text has one decomposition, the one that the search finds. -/
theorem decomposes_iff {t last : Text} {found : List FoundToken} :
    Decomposes t found last ↔ findTokens t = (found, last) := by
  constructor
  · exact Decomposes.findTokens
  · intro h
    have whole := decomposes_findTokens t
    rw [h] at whole
    exact whole

end FoundToken

/-! ## The parts of a text -/

namespace Part

open FoundToken

/-- The runs and the tokens of a decomposition as they stand in the text. -/
def pieces (kind : LiteralKind) (found : List FoundToken) (last : Text) : List Part :=
  found.flatMap (fun f => [.literal kind f.before, .token f.token]) ++ [.literal kind last]

/-- The same without empty runs. -/
def ofFound (kind : LiteralKind) (found : List FoundToken) (last : Text) : List Part :=
  found.flatMap (fun f => ofRun kind f.before ++ [.token f.token]) ++ ofRun kind last

theorem ofFound_cons (kind : LiteralKind) (f : FoundToken) (more : List FoundToken)
    (last : Text) : ofFound kind (f :: more) last =
      ofRun kind f.before ++ .token f.token :: ofFound kind more last := by
  simp [ofFound]

theorem filter_pieces (kind : LiteralKind) (found : List FoundToken) (last : Text) :
    (pieces kind found last).filter (fun part => part ≠ .literal kind []) =
      ofFound kind found last := by
  have run (t : Text) :
      [Part.literal kind t].filter (fun part => part ≠ .literal kind []) = ofRun kind t := by
    unfold ofRun
    by_cases h : t = [] <;> simp [h]
  have piece (f : FoundToken) : [Part.literal kind f.before, .token f.token].filter
      (fun part => part ≠ .literal kind []) = ofRun kind f.before ++ [.token f.token] := by
    rw [← run]
    exact List.filter_append [Part.literal kind f.before] [Part.token f.token]
  rw [pieces, List.filter_append, run, List.filter_flatMap]
  simp only [piece]
  rfl

theorem scan_eq (kind : LiteralKind) (t : Text) :
    scan kind t = if (findTokens t).1 = [] then [.literal kind t] else
      ofFound kind (findTokens t).1 (findTokens t).2 := by
  unfold scan
  split
  · next none =>
    rw [none]
    rfl
  · next found last some e =>
    rw [e, if_neg some]
    rfl

/-- Only the empty text has parts that its runs and tokens do not say. -/
theorem scan_eq_ofFound (kind : LiteralKind) {t : Text} (h : t ≠ []) :
    scan kind t = ofFound kind (findTokens t).1 (findTokens t).2 := by
  rw [scan_eq]
  split
  · next none =>
    have whole := decomposes_findTokens t
    rw [none] at whole ⊢
    rw [whole.eq_last]
    exact (if_neg h).symm
  · rfl

/-- **A text has exactly one decomposition into tokens and runs without any**, and its parts
are what the decomposition holds: the tokens and the runs that are not empty, in order, or
the text itself if there is no token. -/
theorem scan_decomposition (kind : LiteralKind) (t : Text) :
    ∃ found last, Decomposes t found last ∧
      (∀ found' last', Decomposes t found' last' → found' = found ∧ last' = last) ∧
      scan kind t = if found = [] then [.literal kind t] else
        (pieces kind found last).filter fun part => part ≠ .literal kind [] := by
  refine ⟨(findTokens t).1, (findTokens t).2, decomposes_findTokens t, ?_, ?_⟩
  · intro found' last' h
    rw [h.findTokens]
    exact ⟨rfl, rfl⟩
  · rw [filter_pieces]
    exact scan_eq kind t

/-- A candidate that runs into a token is none, and the end of a color may hold another brace. -/
example : scan .printed "%\x7b%\x7bdelay 5\x7d%\x7bend:%\x7bend\x7d\x7d".toList =
    [.literal .printed "%\x7b".toList, .token (.delay 5), .token .endColor,
      .literal .printed "\x7d".toList] := by decide

end Part

end TermScene
