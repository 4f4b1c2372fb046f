import RSource.Proofs.Standing

/-!
# Tokens with spaces between them

A source is read alike if its tokens are written one behind the other with one space behind each.
Behind a comment no space is written: it would be a part of the comment.

* `Token.word` — what a token is, wherever it stands.
* `spaced`, `respaced` — the text and the source that some tokens make with spaces between them.
* `Spaceable` — tokens that can be told apart in what is written of them.
* `Reader.Reaches.spaceable` — tokens that are read of any text are such tokens.
* `Spaceable.reaches` — **what is written of such tokens is read as them**.
* `lex_respaced` — **a source is read alike if its tokens are spaced anew**.
-/

namespace RSource

/-- What a token is, wherever it stands. -/
def Token.word (t : Token) : TokenKind × String := (t.kind, t.lexeme)

/-- What is written behind a token: a space, but nothing behind a comment. -/
def Token.space (t : Token) : List Char := if t.kind = .comment then [] else [' ']

/-- The text of some tokens with spaces between them. The end of the input leaves nothing. -/
def spaced (ts : List Token) : List Char :=
  (ts.filter (·.kind ≠ .eof)).flatMap fun t => t.lexeme.toList ++ t.space

/-- The source of some tokens with spaces between them. -/
def respaced (ts : List Token) : List UInt8 := (spaced ts).flatMap String.utf8EncodeChar

variable {t : Token} {ts : List Token}

theorem spaced_cons (he : t.kind ≠ .eof) :
    spaced (t :: ts) = t.lexeme.toList ++ (t.space ++ spaced ts) := by
  rw [spaced, List.filter_cons_of_pos (by simpa using he), List.flatMap_cons, List.append_assoc]
  rfl

theorem spaced_concat_eof (k : Cursor) : spaced (ts ++ [Reader.eofAt k]) = spaced ts := by
  rw [spaced, spaced, List.filter_append, List.filter_cons_of_neg (by simp [Reader.eofAt]),
    List.filter_nil, List.append_nil]

theorem Token.isBlank_space (t : Token) : ∀ c ∈ t.space, isBlank c = true := by
  intro c hc
  unfold space at hc
  split at hc
  · cases hc
  · obtain rfl := List.mem_singleton.mp hc
    rfl

/-- Tokens that can be told apart in what is written of them: each is spelled as its kind asks, and
behind a comment its line ends. -/
inductive Spaceable : List Token → Prop where
  | nil : Spaceable []
  | cons {t : Token} {ts : List Token} (hspells : Lexeme.Spells t.kind t.lexeme.toList)
      (he : t.kind ≠ .eof) (hc : t.kind = .comment → ∀ c ∈ (spaced ts).head?, c = '\n')
      (h : Spaceable ts) : Spaceable (t :: ts)

/-! ## Tokens of a text -/

/-- A comment goes on to the end of its line. -/
theorem Lexeme.rest_of_comment {cs : List Char} {l : Lexeme} (h : scan cs = .ok l)
    (hk : l.kind = .comment) : ∀ c ∈ l.rest.head?, c = '\n' := by
  cases reading_of_scan h with
  | comment cs =>
      intro c hc
      simpa using comment_rest ('#' :: cs) c hc
  | eof | newline | string | quotedIdent | special | number => cases hk
  | @word c cs _ =>
      have hall : ∀ r ∈ reservedWords, r.2 ≠ .comment := by decide
      rcases wordKind_cases (String.ofList (nameRun (c :: cs))) with ⟨hw, _⟩ | hw
      · rw [word, hw] at hk
        cases hk
      · exact absurd hk (hall _ hw)
  | symbol _ hf =>
      have hall : ∀ s ∈ symbols, s.2 ≠ .comment := by decide
      exact absurd hk (hall _ (List.mem_of_find?_eq_some hf))

namespace Reader

variable {r r' after : Reader}

/-- What is written of the tokens of a text starts with a line feed if the text does. -/
theorem Reaches.head_spaced (h : Reaches r ts r') (hr : ∀ c ∈ r.rest.head?, c = '\n') :
    ∀ c ∈ (spaced ts).head?, c = '\n' := by
  cases h with
  | here | blanks =>
      intro c hc
      cases hc
  | step hn hk hreaches =>
      obtain ⟨l, hl, rfl, rfl⟩ := next_ok hn
      have hvisible : ∀ c ∈ r.rest.head?, isBlank c = false := by
        intro c hc
        rw [hr c hc]
        rfl
      have hafter : Lexeme.afterBlanks r.rest = r.rest := (Lexeme.run_stop hvisible).2
      have hne := Lexeme.scan_text_ne_nil hl hk
      rw [hafter] at hl
      rw [← Lexeme.scan_split hl, List.head?_append_of_ne_nil _ hne] at hr
      rw [spaced_cons hk, String.toList_ofList, List.head?_append_of_ne_nil _ hne]
      exact hr

/-- Tokens that are read of any text can be told apart in what is written of them. -/
theorem Reaches.spaceable (h : Reaches r ts r') : Spaceable ts := by
  induction h with
  | here | blanks => exact .nil
  | step hn hk hreaches ih =>
      refine .cons (spells_of_next hn) hk (fun hc => hreaches.head_spaced ?_) ih
      obtain ⟨l, hl, rfl, rfl⟩ := next_ok hn
      exact Lexeme.rest_of_comment hl hc

end Reader

/-! ## Reading what is written -/

/-- **What is written of such tokens is read as them**, wherever it stands and whatever blanks stand
before it. -/
theorem Spaceable.reaches (h : Spaceable ts) (k : Cursor) {sp : List Char}
    (hsp : ∀ c ∈ sp, isBlank c = true) :
    ∃ us k', Reader.Reaches ⟨k, sp ++ spaced ts⟩ us ⟨k', []⟩ ∧
      us.map Token.word = ts.map Token.word := by
  induction h generalizing k sp with
  | nil =>
      have hnil : ∀ c ∈ ([] : List Char).head?, isBlank c = false := fun c hc => by cases hc
      obtain ⟨-, hafter⟩ := Lexeme.blanks_append hsp hnil
      have hskip : (⟨k, sp ++ []⟩ : Reader).skipBlanks =
          ⟨k.advance (Lexeme.blanks (sp ++ [])), []⟩ := by
        rw [Reader.skipBlanks, hafter]
      refine ⟨[], k.advance (Lexeme.blanks (sp ++ [])), ?_, rfl⟩
      rw [← hskip]
      exact .blanks _
  | @cons t ts hspells he hc h ih =>
      have hgap : Lexeme.Gap (t.space ++ spaced ts) := by
        unfold Token.space
        split
        · rename_i hcomment
          exact fun c hmem => Or.inr (hc hcomment c hmem)
        · exact .cons_space _
      have hline : t.kind = .comment → ∀ c ∈ (t.space ++ spaced ts).head?, c = '\n' := by
        intro hcomment
        rw [Token.space, if_pos hcomment]
        exact hc hcomment
      have hscan := hspells.read_again hgap hline he
      have hn := Reader.next_of_scan (r := ⟨k, sp ++ spaced (t :: ts)⟩)
        (congrArg (sp ++ ·) (spaced_cons he)) hsp (hspells.visible_append he _) hscan
      obtain ⟨us, k', hr, hwords⟩ := ih ((k.advance sp).advance t.lexeme.toList) t.isBlank_space
      refine ⟨_, k', .step hn he hr, ?_⟩
      rw [List.map_cons, List.map_cons, hwords, Token.word, Token.word, String.ofList_toList]

/-- **A source is read alike if its tokens are spaced anew**: one behind the other, with one space
behind each but the comments. -/
theorem lex_respaced {bytes : List UInt8} {ts : List Token} (h : lex bytes = .ok ts) :
    ∃ us, lex (respaced ts) = .ok us ∧ us.map Token.word = ts.map Token.word := by
  obtain ⟨text, us, k, -, rfl, hr⟩ := Reader.reaches_of_lex h
  have hnone : ∀ c ∈ ([] : List Char), isBlank c = true := fun c hc => by cases hc
  obtain ⟨vs, k', hvs, hwords⟩ := hr.spaceable.reaches .start hnone
  refine ⟨vs ++ [Reader.eofAt k'], ?_, ?_⟩
  · rw [lex, respaced, decodeSource_iff.mpr rfl, spaced_concat_eof]
    exact Reader.lexText_iff.mpr ⟨vs, k', rfl, hvs⟩
  · rw [List.map_append, List.map_append, hwords]
    rfl

/-- Quoted spaces and number signs stay, a comment ends with its line, and the last one with the
source. -/
theorem lex_respaced_of_comments :
    let source := "x<-'# é' %a b%`#`# y\n# z".toUTF8.data.toList
    let ts : List Token := [⟨.ident, "x", ⟨1, 1⟩, 0⟩, ⟨.leftAssign, "<-", ⟨1, 2⟩, 1⟩,
      ⟨.str, "'# é'", ⟨1, 4⟩, 3⟩, ⟨.special, "%a b%", ⟨1, 10⟩, 10⟩,
      ⟨.quotedIdent, "`#`", ⟨1, 15⟩, 15⟩, ⟨.comment, "# y", ⟨1, 18⟩, 18⟩,
      ⟨.newline, "\n", ⟨1, 21⟩, 21⟩, ⟨.comment, "# z", ⟨2, 1⟩, 22⟩, ⟨.eof, "", ⟨2, 4⟩, 25⟩]
    respaced ts = "x <- '# é' %a b% `#` # y\n # z".toUTF8.data.toList ∧
      lex source = .ok ts ∧
      ∃ us, lex (respaced ts) = .ok us ∧ us.map Token.word = ts.map Token.word := by
  intro source ts
  have hlex : lex source = .ok ts := by decide +kernel
  exact ⟨by decide +kernel, hlex, lex_respaced hlex⟩

end RSource
