import RSource.Feed
import RSource.Proofs.Spelling

/-!
# The tokens a reader has left

* `Reader.remaining` — the tokens from a reader on, without comments, and how they end: with the
  end of the input or with a fault.
* `Reader.tokens_of_remaining` — they are the tokens of the text, comments and end taken out.
* `Reader.nextShown_remaining` — the next token that is not hidden is the first of them that is
  not, and the reader past it has the others left.
* `Reader.skipLines_remaining` — passing over line feeds drops those in front.
-/

namespace RSource.Reader

/-- A token is read behind the blanks, and the text goes on behind it. -/
theorem next_ok {r after : Reader} {t : Token} (h : r.next = .ok (t, after)) :
    ∃ l, Lexeme.scan (Lexeme.afterBlanks r.rest) = .ok l ∧
      t = ⟨l.kind, String.ofList l.text, r.skipBlanks.cursor.loc, r.skipBlanks.cursor.offset⟩ ∧
      after = ⟨r.skipBlanks.cursor.advance l.text, l.rest⟩ := by
  simp only [next, read, skipBlanks] at h ⊢
  split at h
  · cases h
  · rename_i l hl
    cases h
    exact ⟨l, hl, rfl, rfl⟩

theorem next_rest_lt {r after : Reader} {t : Token} (h : r.next = .ok (t, after))
    (hk : t.kind ≠ .eof) : after.rest.length < r.rest.length := by
  obtain ⟨l, hl, rfl, rfl⟩ := next_ok h
  have hsplit := congrArg List.length (Lexeme.scan_split hl)
  have hpos := List.length_pos_iff.mpr (Lexeme.scan_text_ne_nil hl hk)
  have hblank := congrArg List.length (Lexeme.blanks_append_afterBlanks r.rest)
  simp only [List.length_append] at hsplit hblank ⊢
  omega

/-- At the end of the input reading goes on to find the end. -/
theorem next_eof {r after : Reader} {t : Token} (h : r.next = .ok (t, after))
    (hk : t.kind = .eof) : after.next = .ok (t, after) := by
  obtain ⟨l, hl, rfl, rfl⟩ := next_ok h
  rw [Lexeme.scan_eof hl hk] at hl
  cases hl
  rfl

theorem spells_of_next {r after : Reader} {t : Token} (h : r.next = .ok (t, after)) :
    Lexeme.Spells t.kind t.lexeme.toList := by
  obtain ⟨l, hl, rfl, rfl⟩ := next_ok h
  rw [String.toList_ofList]
  exact Lexeme.spells_of_scan hl

theorem next_spelled {r after : Reader} {t : Token} (h : r.next = .ok (t, after))
    (hc : t.kind ≠ .comment) (hk : t.kind ≠ .eof) : t.IsSpelled :=
  ⟨hc, hk, spells_of_next h⟩

/-- The tokens from here on, comments left out, up to the end of the input or the first fault,
which is the second component. -/
def remaining (r : Reader) : List Token × Except LexError Token :=
  match h : r.next with
  | .error e => ([], .error e)
  | .ok (t, after) =>
      if hk : t.kind = .eof then ([], .ok t)
      else
        have := next_rest_lt h hk
        if t.kind = .comment then after.remaining
        else (t :: after.remaining.1, after.remaining.2)
termination_by r.rest.length

theorem remaining_error {r : Reader} {e : LexError} (h : r.next = .error e) :
    r.remaining = ([], .error e) := by
  rw [remaining]
  split
  · rename_i he; rw [h] at he; cases he; rfl
  · rename_i ho; rw [h] at ho; cases ho

theorem remaining_ok {r after : Reader} {t : Token} (h : r.next = .ok (t, after)) :
    r.remaining =
      if t.kind = .eof then ([], .ok t)
      else if t.kind = .comment then after.remaining
      else (t :: after.remaining.1, after.remaining.2) := by
  rw [remaining]
  split
  · rename_i he; rw [h] at he; cases he
  · rename_i ho; rw [h] at ho; cases ho; rfl

/-- What holds where reading stops, and behind a token if it holds past it, holds everywhere. -/
@[elab_as_elim]
theorem reading {P : Reader → Prop} (error : ∀ r e, r.next = .error e → P r)
    (eof : ∀ r t after, r.next = .ok (t, after) → t.kind = .eof → P r)
    (step : ∀ r t after, r.next = .ok (t, after) → t.kind ≠ .eof → P after → P r)
    (r : Reader) : P r := by
  induction hn : r.rest.length using Nat.strongRecOn generalizing r with
  | ind n ih =>
      cases h : r.next with
      | error e => exact error r e h
      | ok p =>
          obtain ⟨t, after⟩ := p
          by_cases hk : t.kind = .eof
          · exact eof r t after h hk
          · exact step r t after h hk (ih _ (hn ▸ next_rest_lt h hk) after rfl)

theorem remaining_eof {r after : Reader} {t : Token} (h : r.next = .ok (t, after))
    (hk : t.kind = .eof) : r.remaining = ([], .ok t) := by
  rw [remaining_ok h, if_pos hk]

/-- Every token left is spelled as its kind asks. -/
theorem remaining_spelled (r : Reader) : ∀ t ∈ r.remaining.1, t.IsSpelled := by
  induction r using reading with
  | error r e h => simp [remaining_error h]
  | eof r t after h hk => simp [remaining_eof h hk]
  | step r t after h hk ih =>
      rw [remaining_ok h, if_neg hk]
      split
      · exact ih
      · rename_i hc
        intro u hu
        rcases List.mem_cons.mp hu with rfl | hu
        · exact next_spelled h hc hk
        · exact ih u hu

/-- Tokens end with the end of the input. -/
theorem remaining_ending (r : Reader) : ∀ t, r.remaining.2 = .ok t → t.kind = .eof := by
  induction r using reading with
  | error r e h => simp [remaining_error h]
  | eof r t after h hk =>
      intro u hu
      rw [remaining_eof h hk] at hu
      cases hu
      exact hk
  | step r t after h hk ih =>
      rw [remaining_ok h, if_neg hk]
      split <;> exact ih

/-- Every token left takes a character at least. -/
theorem length_remaining (r : Reader) : r.remaining.1.length ≤ r.rest.length := by
  induction r using reading with
  | error r e h => simp [remaining_error h]
  | eof r t after h hk => simp [remaining_eof h hk]
  | step r t after h hk ih =>
      have hlt := next_rest_lt h hk
      rw [remaining_ok h, if_neg hk]
      split
      · omega
      · simp only [List.length_cons]
        omega

/-! ## All tokens -/

theorem tokensWithin_remaining {left : List Char} {r : Reader} (hl : r.rest.length ≤ left.length)
    {eof : Token} (h : r.remaining.2 = .ok eof) :
    ∃ ts, tokensWithin left r = .ok (ts ++ [eof]) ∧
      (∀ t ∈ ts, t.kind ≠ .eof) ∧ ts.filter (·.kind ≠ .comment) = r.remaining.1 := by
  induction left generalizing r with
  | nil =>
      cases hn : r.next with
      | error e => rw [remaining_error hn] at h; cases h
      | ok p =>
          obtain ⟨t, after⟩ := p
          by_cases hk : t.kind = .eof
          · rw [remaining_eof hn hk] at h ⊢
            cases h
            exact ⟨[], by simp [tokensWithin, hn], by simp, rfl⟩
          · have := next_rest_lt hn hk
            simp only [List.length_nil] at hl
            omega
  | cons c left ih =>
      cases hn : r.next with
      | error e => rw [remaining_error hn] at h; cases h
      | ok p =>
          obtain ⟨t, after⟩ := p
          by_cases hk : t.kind = .eof
          · rw [remaining_eof hn hk] at h ⊢
            cases h
            exact ⟨[], by simp [tokensWithin, hn, hk], by simp, rfl⟩
          · have hlt := next_rest_lt hn hk
            have hafter : after.remaining.2 = .ok eof := by
              rw [remaining_ok hn, if_neg hk] at h
              split at h <;> exact h
            simp only [List.length_cons] at hl
            obtain ⟨ts, hts, hne, hf⟩ := ih (by omega) hafter
            refine ⟨t :: ts, by simp [tokensWithin, hn, hk, hts], ?_, ?_⟩
            · intro u hu
              rcases List.mem_cons.mp hu with rfl | hu
              · exact hk
              · exact hne u hu
            · rw [remaining_ok hn, if_neg hk]
              split
              · rename_i hc
                simp [hc, ← hf]
              · rename_i hc
                simp [hc, ← hf]

/-- **The tokens left are those of the text, comments and the end of the input taken out.** -/
theorem tokens_of_remaining {r : Reader} {eof : Token} (h : r.remaining.2 = .ok eof) :
    ∃ ts, r.tokens = .ok (ts ++ [eof]) ∧ (∀ t ∈ ts, t.kind ≠ .eof) ∧
      ts.filter (·.kind ≠ .comment) = r.remaining.1 :=
  tokensWithin_remaining (Nat.le_refl _) h

/-! ## Hidden tokens -/

/-- What a reader finds behind hidden tokens, and what it has left past it. -/
theorem nextShownWithin_remaining {hidden : TokenKind → Bool} (hc : hidden .comment = true)
    (he : hidden .eof = false) {left : List Char} {r : Reader}
    (hl : r.rest.length ≤ left.length) :
    (nextShownWithin hidden left r).map (fun p => (p.1, p.2.remaining)) =
      match r.remaining.1.dropWhile (hidden ·.kind) with
      | t :: ts => .ok (t, ts, r.remaining.2)
      | [] => r.remaining.2.map (fun t => (t, [], .ok t)) := by
  induction left generalizing r with
  | nil =>
      cases hn : r.next with
      | error e => simp [nextShownWithin, hn, remaining_error hn, Except.map]
      | ok p =>
          obtain ⟨t, after⟩ := p
          by_cases hk : t.kind = .eof
          · simp [nextShownWithin, hn, remaining_eof hn hk, remaining_eof (next_eof hn hk) hk,
              Except.map]
          · have := next_rest_lt hn hk
            simp only [List.length_nil] at hl
            omega
  | cons c left ih =>
      cases hn : r.next with
      | error e => simp [nextShownWithin, hn, remaining_error hn, Except.map]
      | ok p =>
          obtain ⟨t, after⟩ := p
          by_cases hk : t.kind = .eof
          · simp [nextShownWithin, hn, remaining_eof hn hk, remaining_eof (next_eof hn hk) hk,
              Except.map, hk, he]
          · have hlt := next_rest_lt hn hk
            simp only [List.length_cons] at hl
            have ih := ih (r := after) (by omega)
            rw [remaining_ok hn, if_neg hk]
            by_cases hh : hidden t.kind = true
            · simp only [nextShownWithin, hn, hh, if_true, ih]
              by_cases hcom : t.kind = .comment
              · simp only [hcom, if_true]
              · simp only [hcom, if_false, List.dropWhile_cons, hh, if_true]
            · have hcom : t.kind ≠ .comment := fun e => hh (e ▸ hc)
              simp [nextShownWithin, hn, hh, hcom, Except.map]

/-- **The next token that is not hidden is the first one left that is not.** -/
theorem nextShown_remaining (hidden : TokenKind → Bool) (hc : hidden .comment = true)
    (he : hidden .eof = false) (r : Reader) :
    (r.nextShown hidden).map (fun p => (p.1, p.2.remaining)) =
      match r.remaining.1.dropWhile (hidden ·.kind) with
      | t :: ts => .ok (t, ts, r.remaining.2)
      | [] => r.remaining.2.map (fun t => (t, [], .ok t)) :=
  nextShownWithin_remaining hc he (Nat.le_refl _)

theorem nextShownWithin_rest_lt {hidden : TokenKind → Bool} (he : hidden .eof = false)
    {left : List Char} {r after : Reader} {t : Token}
    (h : nextShownWithin hidden left r = .ok (t, after)) (hk : t.kind ≠ .eof) :
    after.rest.length < r.rest.length := by
  induction left generalizing r with
  | nil => exact next_rest_lt h hk
  | cons c left ih =>
      rw [nextShownWithin] at h
      split at h
      · cases h
      · rename_i u past hn
        split at h
        · rename_i hh
          have hu : u.kind ≠ .eof := fun e => by simp [e, he] at hh
          have := next_rest_lt hn hu
          have := ih h
          omega
        · cases h
          exact next_rest_lt hn hk

theorem dropWhile_comment {ts : List Token} (h : ∀ t ∈ ts, t.IsSpelled) :
    ts.dropWhile (·.kind == .comment) = ts := by
  cases ts with
  | nil => rfl
  | cons t ts => simp [(h t (List.mem_cons_self ..)).ne_comment]

theorem skipLinesWithin_remaining {left : List Char} {r : Reader}
    (hl : r.rest.length ≤ left.length) :
    (skipLinesWithin left r).map remaining =
      match r.remaining.1.dropWhile (·.kind == .newline), r.remaining.2 with
      | [], .error e => .error e
      | ts, ending => .ok (ts, ending) := by
  induction left generalizing r with
  | nil =>
      have hr : r.rest = [] := by simpa using hl
      have hn : r.next = .ok (⟨.eof, "", r.cursor.loc, r.cursor.offset⟩, ⟨r.cursor, []⟩) := by
        simp [next, read, skipBlanks, hr, Lexeme.blanks, Lexeme.afterBlanks, Lexeme.scan,
          Lexeme.lead]
      simp [skipLinesWithin, remaining_eof hn rfl, Except.map]
  | cons c left ih =>
      have hs := nextShown_remaining (· == .comment) rfl rfl r
      rw [dropWhile_comment r.remaining_spelled] at hs
      rw [skipLinesWithin]
      cases hn : r.nextShown (· == .comment) with
      | error e =>
          rw [hn] at hs
          split at hs
          · cases hs
          · rename_i hnil
            cases hend : r.remaining.2 with
            | error e' => rw [hend] at hs; cases hs; simp [hnil, Except.map]
            | ok eof => rw [hend] at hs; cases hs
      | ok p =>
          obtain ⟨t, after⟩ := p
          rw [hn] at hs
          split at hs
          · rename_i u ts hcons
            simp only [Except.map, Except.ok.injEq, Prod.mk.injEq] at hs
            obtain ⟨rfl, hrem⟩ := hs
            simp only
            split
            · rename_i hk
              have hlt := nextShownWithin_rest_lt (by rfl) hn (by simp [hk])
              simp only [List.length_cons] at hl
              rw [ih (by omega), hrem]
              simp [hcons, hk]
            · rename_i hk
              have hdrop : r.remaining.1.dropWhile (·.kind == .newline) = t :: ts := by
                simp [hcons, hk]
              rw [hdrop]
              exact congrArg Except.ok (Prod.ext hcons rfl)
          · rename_i hnil
            cases hend : r.remaining.2 with
            | error e' => rw [hend] at hs; cases hs
            | ok eof =>
                rw [hend] at hs
                simp only [Except.map, Except.ok.injEq, Prod.mk.injEq] at hs
                obtain ⟨rfl, _⟩ := hs
                have hk := r.remaining_ending _ hend
                simp [hk, hnil, Except.map, Prod.ext_iff, hend]

/-- **Passing over line feeds drops those in front.** -/
theorem skipLines_remaining (r : Reader) :
    r.skipLines.map remaining =
      match r.remaining.1.dropWhile (·.kind == .newline), r.remaining.2 with
      | [], .error e => .error e
      | ts, ending => .ok (ts, ending) :=
  skipLinesWithin_remaining (Nat.le_refl _)

end RSource.Reader
