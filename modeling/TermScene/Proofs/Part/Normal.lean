import TermScene.Part.Scan

/-!
# Normal texts

Parts are written with every token in one form. `normalForm` brings the tokens of a text
into that form and leaves all else alone; it is what is written when the parts of a text
are (`render_scan`). The normal text has the same parts (`scan_normalForm`): no token is
lost, and none comes up where there was none, because a body that runs into another
opening brace makes a token only if it makes one whatever follows (`ofBody?_of_brace`).
-/

namespace TermScene

/-! ## Bodies that hold an opening brace -/

theorem Text.mem_trim {t : Text} {c : Char} (h : c ∈ t) (hc : Text.isBlank c = false) :
    c ∈ t.trim := by
  have drop (l : Text) (h : c ∈ l) : c ∈ l.dropWhile Text.isBlank := by
    rw [← List.takeWhile_append_dropWhile (p := Text.isBlank) (l := l)] at h
    rcases List.mem_append.1 h with h | h
    · have blank := List.all_eq_true.1 List.all_takeWhile c h
      rw [hc] at blank
      cases blank
    · exact h
  exact List.mem_reverse.2 (drop _ (List.mem_reverse.2 (drop _ h)))

theorem Whole.isDigit_of_readDigits {limit n m : Nat} {excess : Fault} {t : Text}
    (h : readDigits limit excess n t = .ok m) : ∀ c ∈ t, c.isDigit = true := by
  induction t generalizing n with
  | nil => exact List.forall_mem_nil _
  | cons d t ih =>
    unfold readDigits at h
    split at h
    · cases h
    · next value digit =>
      split at h
      · cases h
      · refine List.forall_mem_cons.2 ⟨?_, ih h⟩
        unfold digit? at digit
        split at digit
        · assumption
        · cases digit

theorem Whole.isDigit_of_readNat {limit n : Nat} {t : Text} (h : readNat limit t = .ok n) :
    ∀ c ∈ t, c.isDigit = true := by
  unfold readNat at h
  split at h
  · cases h
  · exact isDigit_of_readDigits h

namespace Token

theorem brace_not_mem_of_readDelay? {value : Text} {token : Token}
    (h : readDelay? value = some token) : '{' ∉ value := by
  intro hb
  unfold readDelay? at h
  split at h
  · obtain ⟨ms, hms, -⟩ := Option.map_eq_some_iff.1 h
    cases read : Whole.readNat (UInt64.size - 1) value.trim with
    | error fault => rw [read] at hms; cases hms
    | ok n =>
      have digit := Whole.isDigit_of_readNat read '{' (Text.mem_trim hb (by decide))
      cases digit
  · cases h

theorem brace_not_mem_of_readCode? {code : Text} {n : UInt8} (h : readCode? code = some n) :
    '{' ∉ code := by
  intro hb
  have hb : '{' ∈ code.trim := Text.mem_trim hb (by decide)
  unfold readCode? at h
  obtain ⟨m, hm, -⟩ := Option.map_eq_some_iff.1 h
  generalize code.trim = code at hb hm
  have digits : '{' ∈ (if code.getLast? = some 'm' then code.dropLast else code) := by
    split
    · next last =>
      obtain ⟨u, rfl⟩ := List.getLast?_eq_some_iff.1 last
      rw [List.dropLast_concat]
      simpa using hb
    · exact hb
  cases read : Whole.readNat 255 (if code.getLast? = some 'm' then code.dropLast else code) with
  | error fault => rw [read] at hm; cases hm
  | ok n =>
    have digit := Whole.isDigit_of_readNat read '{' digits
    cases digit

theorem brace_not_mem_of_readColor? {codes : Text} {token : Token}
    (h : readColor? codes = some token) : '{' ∉ codes := by
  unfold readColor? at h
  split at h
  · next background text cut =>
    obtain ⟨rfl, -⟩ := Text.cutAt?_eq_some_iff.1 cut
    obtain ⟨b, hb, h⟩ := Option.bind_eq_some_iff.1 h
    obtain ⟨t, ht, -⟩ := Option.bind_eq_some_iff.1 h
    have first := brace_not_mem_of_readCode? hb
    have second := brace_not_mem_of_readCode? ht
    simp [first, second]
  · obtain ⟨t, ht, -⟩ := Option.map_eq_some_iff.1 h
    exact brace_not_mem_of_readCode? ht

/-- A body that holds an opening brace makes a token only if it begins like the end of a
color. -/
theorem ofBody?_brace {body : Text} {token : Token} (brace : '{' ∈ body)
    (h : ofBody? body = some token) : token = .endColor ∧ ∃ rest, body = "end:".toList ++ rest := by
  unfold ofBody? at h
  split at h
  · next value delay =>
    obtain rfl := Text.after?_eq_some_iff.1 delay
    have := brace_not_mem_of_readDelay? h
    simp [this] at brace
  · split at h
    · next codes begins =>
      obtain rfl := Text.after?_eq_some_iff.1 begins
      have := brace_not_mem_of_readColor? h
      simp [this] at brace
    · split at h
      · next ends =>
        injection h with h
        refine ⟨h.symm, ?_⟩
        rcases ends with rfl | ends
        · simp at brace
        · obtain ⟨rest, hrest⟩ := Option.isSome_iff_exists.1 ends
          exact ⟨rest, Text.after?_eq_some_iff.1 hrest⟩
      · cases h

theorem ofBody?_end (rest : Text) : ofBody? ("end:".toList ++ rest) = some .endColor := by
  have ends : Text.after? ("end:".toList ++ rest) "end:".toList = some rest :=
    Text.after?_append _ _
  have delay : Text.after? ("end:".toList ++ rest) "delay".toList = none := rfl
  have begins : Text.after? ("end:".toList ++ rest) "begin:".toList = none := rfl
  rw [ofBody?, delay, begins, ends]
  exact if_pos (.inr rfl)

/-- So it begins in front of the brace. -/
theorem exists_of_ofBody?_brace {u v : Text} {token : Token}
    (h : ofBody? (u ++ '%' :: '{' :: v) = some token) :
    token = .endColor ∧ ∃ w, u = "end:".toList ++ w := by
  obtain ⟨ends, rest, e⟩ := ofBody?_brace (by simp) h
  refine ⟨ends, ?_⟩
  rcases List.append_eq_append_iff.1 e with ⟨a, hu, hv⟩ | ⟨a, hu, -⟩
  · cases a with
    | nil => exact ⟨[], (List.append_nil u).symm.trans hu.symm⟩
    | cons c a =>
      injection hv with hc
      subst hc
      have mem : '%' ∈ "end:".toList := by rw [hu]; simp
      exact absurd mem (by decide)
  · exact ⟨a, hu⟩

/-- What follows an opening brace within a body does not matter. -/
theorem ofBody?_of_brace {u v : Text} {token : Token}
    (h : ofBody? (u ++ '%' :: '{' :: v) = some token) (w : Text) :
    ofBody? (u ++ '%' :: '{' :: w) = some token := by
  obtain ⟨rfl, rest, rfl⟩ := exists_of_ofBody?_brace h
  rw [List.append_assoc]
  exact ofBody?_end _

/-! ## Written bodies -/

/-- A body is written with digits and a few other characters. -/
theorem mem_body {token : Token} {c : Char} (h : c ∈ token.body) :
    c.isDigit = true ∨ c ∈ "delay begin:;end".toList := by
  have print {n : Nat} (h : c ∈ Whole.print n) :
      c.isDigit = true ∨ c ∈ "delay begin:;end".toList := .inl (Whole.isDigit_of_mem_print h)
  have word {w : Text} (sub : w ⊆ "delay begin:;end".toList) (h : c ∈ w) :
      c.isDigit = true ∨ c ∈ "delay begin:;end".toList := .inr (sub h)
  cases token with
  | delay ms =>
    rcases List.mem_append.1 h with h | h
    · exact word (by decide) h
    · exact print h
  | beginColor background text =>
    cases background with
    | none =>
      rcases List.mem_append.1 h with h | h
      · exact word (by decide) h
      · exact print h
    | some background =>
      rcases List.mem_append.1 h with h | h
      · rcases List.mem_append.1 h with h | h
        · exact word (by decide) h
        · exact print h
      · rcases List.mem_cons.1 h with rfl | h
        · exact word (w := [';']) (by decide) List.mem_cons_self
        · exact print h
  | endColor => exact word (by decide) h

theorem not_mem_body {c : Char} (digit : c.isDigit = false)
    (other : c ∉ "delay begin:;end".toList) (token : Token) : c ∉ token.body := by
  intro h
  rcases mem_body h with h | h
  · rw [digit] at h
    cases h
  · exact other h

theorem closing_not_mem_body (token : Token) : '}' ∉ token.body :=
  not_mem_body (by decide) (by decide) token

theorem write_append (token : Token) (rest : Text) :
    token.write ++ rest = '%' :: '{' :: (token.body ++ '}' :: rest) := by simp [write]

end Token

namespace FoundToken

/-- What is written for a token is taken as one. -/
theorem findTokens_write (token : Token) (rest : Text) : findTokens (token.write ++ rest) =
    (⟨[], token.body, token⟩ :: (findTokens rest).1, (findTokens rest).2) := by
  rw [token.write_append,
    findTokens_of_atStart token.closing_not_mem_body (Token.ofBody?_body token)]

/-- The text with every token in the form in which tokens are written. -/
def normalForm (t : Text) : Text :=
  (findTokens t).1.flatMap (fun f => f.before ++ f.token.write) ++ (findTokens t).2

theorem normalForm_cons {c : Char} {rest : Text} (h : atStart? (c :: rest) = none) :
    normalForm (c :: rest) = c :: normalForm rest := by
  unfold normalForm
  rw [findTokens_cons_of_none h]
  obtain ⟨found, last⟩ := findTokens rest
  cases found <;> rfl

theorem normalForm_token {body rest : Text} {token : Token} (closed : '}' ∉ body)
    (ht : Token.ofBody? body = some token) :
    normalForm ('%' :: '{' :: (body ++ '}' :: rest)) = token.write ++ normalForm rest := by
  unfold normalForm
  rw [findTokens_of_atStart closed ht, List.flatMap_cons, List.nil_append, List.append_assoc]

theorem atStart?_of_ne {c : Char} {rest : Text} (h : c ≠ '%') : atStart? (c :: rest) = none := by
  unfold atStart?
  split
  · next e =>
    injection e with e
    exact absurd e h
  · rfl

/-! ## What normalizing keeps -/

theorem head?_normalForm (t : Text) : (normalForm t).head? = t.head? := by
  induction t using induction with
  | nil => rfl
  | literal c rest start ih =>
    rw [normalForm_cons start]
    rfl
  | token body token rest closed ht ih =>
    rw [normalForm_token closed ht]
    rfl

theorem getLast?_normalForm (t : Text) : (normalForm t).getLast? = t.getLast? := by
  induction t using induction with
  | nil => rfl
  | literal c rest start ih =>
    rw [normalForm_cons start, List.getLast?_cons, List.getLast?_cons, ih]
  | token body token rest closed ht ih =>
    have ends (x l : Text) : (x ++ '}' :: l).getLast? = some (l.getLast?.getD '}') := by
      rw [List.getLast?_append, List.getLast?_cons]
      rfl
    have source : '%' :: '{' :: (body ++ '}' :: rest) = ('%' :: '{' :: body) ++ '}' :: rest := rfl
    have written : token.write ++ normalForm rest =
        ('%' :: '{' :: token.body) ++ '}' :: normalForm rest := by simp [Token.write]
    rw [normalForm_token closed ht, source, written, ends, ends, ih]

theorem normalForm_eq_nil_iff {t : Text} : normalForm t = [] ↔ t = [] := by
  rw [← List.head?_eq_none_iff, head?_normalForm, List.head?_eq_none_iff]

theorem normalForm_append_of_not_mem {p : Text} (h : '%' ∉ p) (rest : Text) :
    normalForm (p ++ rest) = p ++ normalForm rest := by
  induction p with
  | nil => rfl
  | cons c p ih =>
    simp only [List.mem_cons, not_or] at h
    rw [List.cons_append, normalForm_cons (atStart?_of_ne (Ne.symm h.1)), ih h.2]
    rfl

/-- A beginning without tokens stands in a text if it stands in the normal text. -/
theorem exists_of_normalForm_eq_append {p t r : Text} (h : '%' ∉ p) (e : normalForm t = p ++ r) :
    ∃ rest, t = p ++ rest ∧ normalForm rest = r := by
  induction p generalizing t with
  | nil => exact ⟨t, rfl, e⟩
  | cons c p ih =>
    simp only [List.mem_cons, not_or] at h
    have head : t.head? = some c := by rw [← head?_normalForm, e]; rfl
    obtain ⟨rest, rfl⟩ := List.head?_eq_some_iff.1 head
    rw [normalForm_cons (atStart?_of_ne (Ne.symm h.1))] at e
    injection e with _ e
    obtain ⟨rest', rfl, hr⟩ := ih h.2 e
    exact ⟨rest', rfl, hr⟩

/-- A character that closes no token is kept at the end. -/
theorem normalForm_concat {c : Char} (h : c ≠ '}') (t : Text) :
    normalForm (t ++ [c]) = normalForm t ++ [c] := by
  induction t using induction with
  | nil =>
    have start : atStart? [c] = none := by
      by_cases hc : c = '%'
      · rw [hc]
        rfl
      · exact atStart?_of_ne hc
    rw [List.nil_append, normalForm_cons start]
    rfl
  | literal d rest start ih =>
    have start' : atStart? (d :: (rest ++ [c])) = none := by
      cases found : atStart? (d :: (rest ++ [c])) with
      | none => rfl
      | some p =>
        obtain ⟨body, token⟩ := p
        obtain ⟨⟨behind, e⟩, closed, ht⟩ := atStart?_eq_some_iff.1 found
        -- the token would end in the character or stand in the text without it
        rcases List.eq_nil_or_concat behind with rfl | ⟨behind, b, rfl⟩
        · have ends : (d :: rest) ++ [c] = ('%' :: '{' :: body) ++ ['}'] := e
          obtain ⟨-, last⟩ := List.append_inj' ends rfl
          exact absurd (List.singleton_inj.1 last) h
        · have ends : (d :: rest) ++ [c] = ('%' :: '{' :: (body ++ '}' :: behind)) ++ [b] := by
            simpa using e
          obtain ⟨before, -⟩ := List.append_inj' ends rfl
          rw [atStart?_eq_some_iff.2 ⟨⟨behind, before⟩, closed, ht⟩] at start
          cases start
    rw [List.cons_append, normalForm_cons start', normalForm_cons start, ih]
    rfl
  | token body token rest closed ht ih =>
    have behind : '%' :: '{' :: (body ++ '}' :: rest) ++ [c] =
        '%' :: '{' :: (body ++ '}' :: (rest ++ [c])) := by simp
    rw [behind, normalForm_token closed ht, normalForm_token closed ht, ih, List.append_assoc]

theorem feed_not_mem_write (token : Token) : '\n' ∉ token.write := by
  have body := Token.not_mem_body (c := '\n') (by decide) (by decide) token
  simp [Token.write, body]

theorem feed_not_mem_normalForm {t : Text} (h : '\n' ∉ t) : '\n' ∉ normalForm t := by
  induction t using induction with
  | nil => exact h
  | literal c rest start ih =>
    simp only [List.mem_cons, not_or] at h
    rw [normalForm_cons start, List.mem_cons, not_or]
    exact ⟨h.1, ih h.2⟩
  | token body token rest closed ht ih =>
    have rest' : '\n' ∉ rest := fun hr => h (by simp [hr])
    rw [normalForm_token closed ht, List.mem_append, not_or]
    exact ⟨feed_not_mem_write token, ih rest'⟩

theorem feed_not_mem_map_normalForm {ls : List Text} (h : ∀ l ∈ ls, '\n' ∉ l) :
    ∀ l ∈ ls.map normalForm, '\n' ∉ l := by
  intro l hl
  obtain ⟨l, mem, rfl⟩ := List.mem_map.1 hl
  exact feed_not_mem_normalForm (h l mem)

/-! ## The tokens of a normal text -/

theorem normalForm_of_closing_not_mem {t : Text} (h : '}' ∉ t) : normalForm t = t := by
  induction t using induction with
  | nil => rfl
  | literal c rest start ih =>
    simp only [List.mem_cons, not_or] at h
    rw [normalForm_cons start, ih h.2]
  | token body token rest closed ht ih => simp at h

/-- Up to a closing brace, normalizing changes at most what follows an opening one. -/
theorem exists_body_normalForm {r body rest : Text} (e : r = body ++ '}' :: rest)
    (closed : '}' ∉ body) :
    ∃ body' rest', normalForm r = body' ++ '}' :: rest' ∧ '}' ∉ body' ∧
      (body' = body ∨ ∃ u v w, body = u ++ '%' :: '{' :: v ∧ body' = u ++ '%' :: '{' :: w) := by
  induction r using induction generalizing body with
  | nil => cases body <;> cases e
  | literal c r start ih =>
    cases body with
    | nil =>
      injection e with hc hr
      subst hc hr
      exact ⟨[], normalForm r, normalForm_cons start, List.not_mem_nil, .inl rfl⟩
    | cons d body =>
      injection e with hc hr
      subst hc
      simp only [List.mem_cons, not_or] at closed
      obtain ⟨body', rest', he, hclosed, same⟩ := ih hr closed.2
      refine ⟨c :: body', rest', by rw [normalForm_cons start, he]; rfl, ?_, ?_⟩
      · simp [closed.1, hclosed]
      · rcases same with rfl | ⟨u, v, w, rfl, rfl⟩
        · exact .inl rfl
        · exact .inr ⟨c :: u, v, w, rfl, rfl⟩
  | token inner token r hinner ht ih =>
    have hinner' : '}' ∉ '%' :: '{' :: inner := by simp [hinner]
    obtain ⟨hbody, -⟩ := Text.cut_unique hinner' closed e
    have hbody' := token.closing_not_mem_body
    refine ⟨'%' :: '{' :: token.body, normalForm r, ?_, by simp [hbody'], ?_⟩
    · rw [normalForm_token hinner ht]
      simp [Token.write]
    · exact .inr ⟨[], inner, token.body, hbody.symm, rfl⟩

/-- No token comes up where there was none. -/
theorem atStart?_normalForm {c : Char} {rest : Text} (h : atStart? (c :: rest) = none) :
    atStart? (c :: normalForm rest) = none := by
  cases found : atStart? (c :: normalForm rest) with
  | none => rfl
  | some p =>
    obtain ⟨body', token⟩ := p
    obtain ⟨⟨behind, e⟩, closed', ht⟩ := atStart?_eq_some_iff.1 found
    injection e with hc e
    subst hc
    have brace : '%' ∉ ['{'] := by decide
    obtain ⟨r, rfl, hr⟩ := exists_of_normalForm_eq_append (p := ['{']) brace e
    have hr : normalForm r = body' ++ '}' :: behind := hr
    cases cut : Text.cutAt? '}' r with
    | none =>
      have same : normalForm r = r := normalForm_of_closing_not_mem (Text.cutAt?_eq_none_iff.1 cut)
      rw [← same, hr, Text.cutAt?_eq_some_iff.2 ⟨rfl, closed'⟩] at cut
      cases cut
    | some q =>
      obtain ⟨body, after⟩ := q
      obtain ⟨er, closed⟩ := Text.cutAt?_eq_some_iff.1 cut
      obtain ⟨body'', after', e'', closed'', alike⟩ := exists_body_normalForm er closed
      obtain ⟨rfl, -⟩ := Text.cut_unique closed' closed'' (hr.symm.trans e'')
      have parses : Token.ofBody? body = some token := by
        rcases alike with rfl | ⟨u, v, w, rfl, rfl⟩
        · exact ht
        · exact Token.ofBody?_of_brace ht v
      have starts : atStart? ('%' :: (['{'] ++ r)) = some (body, token) :=
        atStart?_eq_some_iff.2 ⟨⟨after, by rw [er]; rfl⟩, closed, parses⟩
      rw [starts] at h
      cases h

/-- The tokens of the normal text are those of the text, in normal form. -/
theorem findTokens_normalForm (t : Text) : findTokens (normalForm t) =
    ((findTokens t).1.map fun f => { f with body := f.token.body }, (findTokens t).2) := by
  induction t using induction with
  | nil => rfl
  | literal c rest start ih =>
    rw [normalForm_cons start, findTokens_cons_of_none (atStart?_normalForm start),
      findTokens_cons_of_none start, ih]
    obtain ⟨found, last⟩ := findTokens rest
    cases found <;> rfl
  | token body token rest closed ht ih =>
    rw [normalForm_token closed ht, findTokens_write, findTokens_of_atStart closed ht, ih]
    rfl

theorem normalForm_normalForm (t : Text) : normalForm (normalForm t) = normalForm t := by
  rw [normalForm, findTokens_normalForm, List.flatMap_map]
  rfl

end FoundToken

namespace Part

open FoundToken

theorem render_ofRun (kind : LiteralKind) (run : Text) : render (ofRun kind run) = run := by
  unfold ofRun
  split
  · next h =>
    rw [h]
    rfl
  · exact List.append_nil run

theorem render_append (l m : List Part) : render (l ++ m) = render l ++ render m :=
  List.flatMap_append

/-- What is written for the parts of a text is the normal text. -/
theorem render_scan (kind : LiteralKind) (t : Text) : render (scan kind t) = normalForm t := by
  have whole := compose_findTokens t
  unfold scan normalForm
  split
  · next last h =>
    rw [h] at whole ⊢
    show t ++ [] = last
    rw [List.append_nil]
    exact whole.symm
  · next found last some h =>
    rw [h, render_append, render_ofRun]
    refine congrArg (· ++ last) ?_
    clear h some
    induction found with
    | nil => rfl
    | cons f more ih =>
      have token : render [.token f.token] = f.token.write := List.append_nil _
      rw [List.flatMap_cons, render_append, render_append, render_ofRun, token, ih,
        List.flatMap_cons]

/-- The normal text has the same parts. -/
theorem scan_normalForm (kind : LiteralKind) (t : Text) : scan kind (normalForm t) = scan kind t := by
  have whole := compose_findTokens t
  unfold scan
  rw [findTokens_normalForm]
  cases h : findTokens t with
  | mk found last =>
    cases found with
    | nil =>
      have same : normalForm t = t := by
        rw [h] at whole
        rw [normalForm, h]
        exact whole
      rw [same]
      rfl
    | cons f more =>
      rw [List.map_cons]
      simp only [List.flatMap_cons, List.flatMap_map]

end Part

end TermScene
