import TermScene.Part.Basic

/-!
# Finding tokens in text

A text is searched from left to right. Where an opening `%` and brace, read up to
the first closing brace behind them, make a token, the token is taken and the
search goes on behind it; anywhere else one character goes to the literal run.
Main statements: nothing of the text is lost (`compose_findTokens`), and every
body found is one that makes its token (`ofBody?_of_mem_findTokens`).
-/

namespace TermScene

/-- A token found in a text: the literal run before it, its body as it stands
there, and what it asks for. -/
structure FoundToken where
  before : Text
  body : Text
  token : Token
  deriving Repr, DecidableEq

namespace FoundToken

/-- The stretch of text that the token and the run before it cover. -/
def text (f : FoundToken) : Text := f.before ++ '%' :: '{' :: (f.body ++ ['}'])

/-- The text made of tokens with the runs before them, and a last run. -/
def compose (found : List FoundToken) (last : Text) : Text := found.flatMap text ++ last

/-- The token that a text begins with, and its body. -/
def atStart? : Text → Option (Text × Token)
  | '%' :: '{' :: rest =>
    match Text.cutAt? '}' rest with
    | some (body, _) => (Token.ofBody? body).map fun token => (body, token)
    | none => none
  | _ => none

/-- Puts a character before the first literal run. -/
def consLiteral (c : Char) : List FoundToken × Text → List FoundToken × Text
  | ([], last) => ([], c :: last)
  | (f :: more, last) => ({ f with before := c :: f.before } :: more, last)

/-- The tokens of a text of which the first `covered` characters belong to a
token already taken, and the literal run behind the last. -/
def findFrom : (covered : Nat) → Text → List FoundToken × Text
  | _, [] => ([], [])
  | covered + 1, _ :: rest => findFrom covered rest
  | 0, c :: rest =>
    match atStart? (c :: rest) with
    | some (body, token) =>
      let (more, last) := findFrom (body.length + 2) rest
      (⟨[], body, token⟩ :: more, last)
    | none => consLiteral c (findFrom 0 rest)

/-- The tokens of a text, and the literal run behind the last. -/
def findTokens (t : Text) : List FoundToken × Text := findFrom 0 t

theorem atStart?_eq_some_iff {t body : Text} {token : Token} :
    atStart? t = some (body, token) ↔
      (∃ rest, t = '%' :: '{' :: (body ++ '}' :: rest)) ∧ '}' ∉ body ∧
        Token.ofBody? body = some token := by
  constructor
  · intro h
    unfold atStart? at h
    split at h
    · split at h
      · next rest body' behind cut =>
        obtain ⟨token', ht, e⟩ := Option.map_eq_some_iff.1 h
        injection e with e₁ e₂
        subst e₁ e₂
        obtain ⟨rfl, hb⟩ := Text.cutAt?_eq_some_iff.1 cut
        exact ⟨⟨_, rfl⟩, hb, ht⟩
      · simp at h
    · simp at h
  · rintro ⟨⟨rest, rfl⟩, hb, ht⟩
    have cut : Text.cutAt? '}' (body ++ '}' :: rest) = some (body, rest) :=
      Text.cutAt?_eq_some_iff.2 ⟨rfl, hb⟩
    simp [atStart?, cut, ht]

/-- Characters already covered are left out. -/
theorem findFrom_eq_drop (covered : Nat) (t : Text) :
    findFrom covered t = findTokens (t.drop covered) := by
  induction covered generalizing t with
  | zero => rfl
  | succ covered ih =>
    cases t with
    | nil => rfl
    | cons c rest => simpa [findFrom] using ih rest

/-- A token at the start of a text is taken. -/
theorem findTokens_of_atStart {body rest : Text} {token : Token} (closed : '}' ∉ body)
    (ht : Token.ofBody? body = some token) :
    findTokens ('%' :: '{' :: (body ++ '}' :: rest)) =
      (⟨[], body, token⟩ :: (findTokens rest).1, (findTokens rest).2) := by
  have start : atStart? ('%' :: '{' :: (body ++ '}' :: rest)) = some (body, token) :=
    atStart?_eq_some_iff.2 ⟨⟨rest, rfl⟩, closed, ht⟩
  have drop : ('{' :: (body ++ '}' :: rest)).drop (body.length + 2) = rest := by
    simp [List.drop_append]
  rw [findTokens, findFrom, start]
  simp [findFrom_eq_drop, drop]

/-- Where no token starts, a character goes to the literal run. -/
theorem findTokens_cons_of_none {c : Char} {rest : Text} (h : atStart? (c :: rest) = none) :
    findTokens (c :: rest) = consLiteral c (findTokens rest) := by
  rw [findTokens, findFrom, h]
  rfl

/-- A text is empty, begins with a character that starts no token, or begins with a token. -/
@[elab_as_elim]
theorem induction {motive : Text → Prop} (nil : motive [])
    (literal : ∀ c rest, atStart? (c :: rest) = none → motive rest → motive (c :: rest))
    (token : ∀ body token rest, '}' ∉ body → Token.ofBody? body = some token → motive rest →
      motive ('%' :: '{' :: (body ++ '}' :: rest)))
    (t : Text) : motive t := by
  suffices ∀ n (t : Text), t.length ≤ n → motive t from this _ t (Nat.le_refl _)
  intro n
  induction n with
  | zero =>
    intro t h
    rw [List.eq_nil_of_length_eq_zero (Nat.le_zero.1 h)]
    exact nil
  | succ n ih =>
    intro t h
    cases t with
    | nil => exact nil
    | cons c rest =>
      cases start : atStart? (c :: rest) with
      | none => exact literal c rest start (ih rest (by simpa using h))
      | some p =>
        obtain ⟨body, found⟩ := p
        obtain ⟨⟨behind, e⟩, closed, ht⟩ := atStart?_eq_some_iff.1 start
        have short : behind.length ≤ n := by
          have := congrArg List.length e
          simp at this h
          omega
        rw [e]
        exact token body found behind closed ht (ih behind short)

private theorem compose_consLiteral (c : Char) (p : List FoundToken × Text) :
    compose (consLiteral c p).1 (consLiteral c p).2 = c :: compose p.1 p.2 := by
  obtain ⟨found, last⟩ := p
  cases found <;> simp [consLiteral, compose, text]

/-- Nothing of the text is lost. -/
theorem compose_findTokens (t : Text) : compose (findTokens t).1 (findTokens t).2 = t := by
  induction t using induction with
  | nil => rfl
  | literal c rest start ih => rw [findTokens_cons_of_none start, compose_consLiteral, ih]
  | token body token rest closed ht ih =>
    rw [findTokens_of_atStart closed ht]
    simp only [compose] at ih ⊢
    simp [text, ih]

/-- Every body found holds no closing brace and makes the token found with it. -/
theorem ofBody?_of_mem_findTokens {t : Text} {f : FoundToken} (h : f ∈ (findTokens t).1) :
    '}' ∉ f.body ∧ Token.ofBody? f.body = some f.token := by
  induction t using induction generalizing f with
  | nil => cases h
  | literal c rest start ih =>
    rw [findTokens_cons_of_none start] at h
    revert h
    generalize findTokens rest = p at ih
    obtain ⟨found, last⟩ := p
    cases found with
    | nil => intro h; cases h
    | cons g more =>
      simp only [consLiteral, List.mem_cons]
      rintro (rfl | h)
      · exact ih (f := g) (by simp)
      · exact ih (by simp [h])
  | token body token rest closed ht ih =>
    rw [findTokens_of_atStart closed ht] at h
    rcases List.mem_cons.1 h with rfl | h
    · exact ⟨closed, ht⟩
    · exact ih h

end FoundToken

namespace Part

/-- A literal run as a list of parts: an empty one is left out. -/
def ofRun (kind : LiteralKind) (run : Text) : List Part :=
  if run = [] then [] else [.literal kind run]

/-- The parts that a text is made of, literals being of one kind. A text without
a token is one literal, even if it is empty; next to tokens, empty literals are
left out. -/
def scan (kind : LiteralKind) (t : Text) : List Part :=
  match FoundToken.findTokens t with
  | ([], _) => [.literal kind t]
  | (found, last) => found.flatMap (fun f => ofRun kind f.before ++ [.token f.token]) ++
      ofRun kind last

end Part

end TermScene
