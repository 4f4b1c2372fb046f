import RSource.Proofs.Scanning
import RSource.Token.Basic

/-!
# How tokens are spelled

* `Spells` — the characters are read as one token of the kind, with no blank before it.
* `Spells.eq_label` — a kind that is shown by its spelling has only that one; powers and missing
  values apart, which have several.
* `Spells.quoted`, `Spells.not_reserved` — quoted names stand between backticks, and no name is a
  reserved word.
* `Token.IsSpelled` — a token that a parse may see: no comment, not the end of the input, and
  spelled as its kind asks.
-/

namespace RSource

namespace Lexeme

/-- The characters are read as one token of the kind, and do not start with a blank. -/
structure Spells (kind : TokenKind) (text : List Char) : Prop where
  visible : ∀ c ∈ text.head?, isBlank c = false
  reads : ∃ rest, scan (text ++ rest) = .ok ⟨kind, text, rest⟩

/-- What is read behind the blanks spells its kind. -/
theorem spells_of_scan {cs : List Char} {l : Lexeme} (h : scan (afterBlanks cs) = .ok l) :
    Spells l.kind l.text := by
  have hs := scan_split h
  refine ⟨?_, l.rest, by rw [hs]; exact h⟩
  intro c hc
  obtain ⟨w, hw⟩ := List.head?_eq_some_iff.mp hc
  have hd := List.head?_dropWhile_not isBlank cs
  rw [← afterBlanks, ← hs, hw] at hd
  simpa using hd

/-- Every spelling but that of the end of the input has a character. -/
theorem Spells.ne_nil {kind : TokenKind} {text : List Char} (h : Spells kind text)
    (he : kind ≠ .eof) : text ≠ [] := by
  obtain ⟨rest, hr⟩ := h.reads
  exact scan_text_ne_nil hr he

/-- No blank stands before a spelling, whatever follows it. -/
theorem Spells.visible_append {kind : TokenKind} {text : List Char} (h : Spells kind text)
    (he : kind ≠ .eof) (r : List Char) : ∀ c ∈ (text ++ r).head?, isBlank c = false := by
  obtain ⟨c, w, rfl⟩ := List.exists_cons_of_ne_nil (h.ne_nil he)
  exact h.visible

theorem Spells.reading {kind : TokenKind} {text : List Char} (h : Spells kind text) :
    ∃ cs l, Reading cs l ∧ l.kind = kind ∧ l.text = text := by
  obtain ⟨rest, hr⟩ := h.reads
  exact ⟨_, _, reading_of_scan hr, rfl, rfl⟩

theorem symbols_label : ∀ s ∈ symbols, s.2 = .caret ∨ s.2.label.toList = s.1 := by decide

theorem reservedWords_label : ∀ r ∈ reservedWords, r.2 = .naWord ∨ r.1 = r.2.label := by decide

/-- A kind that is shown by its spelling has that spelling alone, but for powers, which may be
written with two stars, and for missing values, which have a word for each type. -/
theorem Spells.eq_label {kind : TokenKind} {text : List Char} (h : Spells kind text)
    (hk : kind.isSpelled = true) (hc : kind ≠ .caret) (hn : kind ≠ .naWord) (he : kind ≠ .eof) :
    String.ofList text = kind.label := by
  obtain ⟨cs, l, hr, rfl, rfl⟩ := h.reading
  cases hr with
  | eof => exact absurd rfl he
  | newline | comment | string | quotedIdent | special | number => cases hk
  | @word c cs _ =>
      rcases wordKind_cases (String.ofList (nameRun (c :: cs))) with ⟨hw, _⟩ | hw
      · rw [word, hw] at hk; cases hk
      · exact (reservedWords_label _ hw).resolve_left hn
  | symbol _ hf =>
      have hs := (symbols_label _ (List.mem_of_find?_eq_some hf)).resolve_left hc
      simp only at hs
      rw [← hs, String.ofList_toList]

/-- A string between marks ends with the mark. -/
theorem untilClose_close {mark : Char} {esc : Bool} {cs text rest : List Char}
    (h : untilClose mark esc cs = some (text, rest)) : ∃ body, text = body ++ [mark] := by
  induction cs generalizing esc text with
  | nil => cases h
  | cons c cs ih =>
      rw [untilClose] at h
      split at h
      · rename_i hc
        cases h
        simp only [Bool.and_eq_true, beq_iff_eq] at hc
        exact ⟨[], by simp [hc.2]⟩
      · split at h
        · cases h
        · rename_i heq
          cases h
          obtain ⟨body, rfl⟩ := ih heq
          exact ⟨c :: body, rfl⟩

/-- A quoted name stands between backticks. -/
theorem Spells.quoted {text : List Char} (h : Spells .quotedIdent text) :
    ∃ body, text = '\x60' :: (body ++ ['\x60']) := by
  obtain ⟨cs, l, hr, hk, rfl⟩ := h.reading
  cases hr with
  | quotedIdent hb =>
      obtain ⟨body, rfl⟩ := untilClose_close hb
      exact ⟨body, rfl⟩
  | @word c cs _ =>
      have hall : ∀ r ∈ reservedWords, r.2 ≠ .quotedIdent := by decide
      rcases wordKind_cases (String.ofList (nameRun (c :: cs))) with ⟨hw, _⟩ | hw
      · rw [word, hw] at hk; cases hk
      · exact absurd hk (hall _ hw)
  | symbol _ hf =>
      have hall : ∀ s ∈ symbols, s.2 ≠ .quotedIdent := by decide
      exact absurd hk (hall _ (List.mem_of_find?_eq_some hf))
  | _ => cases hk

/-- No name is a reserved word. -/
theorem Spells.not_reserved {text : List Char} (h : Spells .ident text) :
    ∀ r ∈ reservedWords, r.1 ≠ String.ofList text := by
  obtain ⟨cs, l, hr, hk, rfl⟩ := h.reading
  cases hr with
  | @word c cs _ =>
      have hall : ∀ r ∈ reservedWords, r.2 ≠ .ident := by decide
      rcases wordKind_cases (String.ofList (nameRun (c :: cs))) with ⟨_, hw⟩ | hw
      · intro r hr he
        have hne := List.lookup_eq_none_iff.mp hw r hr
        simp [he, word] at hne
      · exact absurd hk (hall _ hw)
  | symbol _ hf =>
      have hall : ∀ s ∈ symbols, s.2 ≠ .ident := by decide
      exact absurd hk (hall _ (List.mem_of_find?_eq_some hf))
  | _ => cases hk

end Lexeme

/-- A token that a parse may see: no comment, not the end of the input, and spelled as its kind
asks. -/
structure Token.IsSpelled (t : Token) : Prop where
  ne_comment : t.kind ≠ .comment
  ne_eof : t.kind ≠ .eof
  spells : Lexeme.Spells t.kind t.lexeme.toList

end RSource
