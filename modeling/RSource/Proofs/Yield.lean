import RSource.Proofs.Coverage
import RSource.Proofs.Reaching
import RSource.Proofs.Soundness

/-!
# No token is lost

* `ReadsStatements.ends` — statements of a program end with the input.
* `reads_of_parse` — the tokens of an accepted source are those that reading passes, and its
  statements are derived from them.
* `fits_of_parse` — **the tokens of an accepted source are those of its tree, each node at its
  place**.
* `yield_eq_tokens` — **no token is lost, doubled or moved**: what is read off the tree is what
  the source spells, layout apart.
-/

namespace RSource

open Grammar

theorem significant_filter_comment (ts : List Token) :
    significant (ts.filter (·.kind ≠ .comment)) = significant ts := by
  rw [significant, significant, List.filter_filter]
  refine List.filter_congr fun t _ => ?_
  cases hk : t.kind <;> simp [TokenKind.isLayout]

/-- Statements end at the closing token. -/
theorem Grammar.ReadsStatements.ends {E : ExprReads} {close : TokenKind} {s s' : Tape}
    {es : List Expression} (h : ReadsStatements E close s es s') :
    ∃ t, s'.front = .ok t ∧ t.kind = close := by
  induction h with
  | skip _ _ _ ih | more _ _ _ _ _ _ _ _ ih => exact ih
  | stop ht hk => exact ⟨_, ht, hk⟩

/-- Where the end of the input is shown, no token but line feeds is left. -/
theorem Tape.significant_of_eof {s : Tape} {t : Token} (ht : s.front = .ok t)
    (hk : t.kind = .eof) : significant s.tokens = [] ∧ s.ending = .ok t := by
  have hnil : s.shown.tokens = [] := tokens_of_end ht hk
  rw [front, head_nil hnil, shown_ending] at ht
  refine ⟨significant_nil_of_all fun u hu => ?_, ht⟩
  rw [shown_tokens] at hnil
  split at hnil
  · have hk : u.kind = .newline := by simpa using List.dropWhile_eq_nil_iff.mp hnil u hu
    rw [hk]
    rfl
  · rw [hnil] at hu
    cases hu

/-- The statements of a program with the node around them. -/
theorem Program.fits_items {p : Program} {ts : List Token}
    (h : Fits (statementItems p.statements) ts) : Fits p.items ts := by
  unfold items
  split
  · rename_i hnil
    rwa [hnil] at h
  · obtain ⟨_ | ⟨e, es⟩⟩ := p
    · rename_i hne
      exact absurd rfl hne
    · obtain ⟨is, his⟩ := e.items_mark
      simp only [Program.loc, statementsLoc, statementItems, his, List.cons_append] at h ⊢
      generalize e.loc = loc at h ⊢
      cases h with
      | mark h => exact .mark (.mark h)

/-- **The tokens of an accepted source are those of its tree, each node at its place.** -/
theorem fits_of_parse {bytes : List UInt8} {p : Program} (h : parse bytes = .ok p) :
    ∃ text ts, decodeSource bytes = .ok text ∧ lexText text = .ok ts ∧
      Fits p.items (significant ts) ∧ ∀ t ∈ significant ts, t.IsSpelled := by
  obtain ⟨text, s', htext, -, hs⟩ := readsProgram_of_parse h
  obtain ⟨t, ht, hk⟩ := hs.ends
  obtain ⟨hnil, hend⟩ := Tape.significant_of_eof ht hk
  have hspan := hs.spans (covers_readsExpression maxNesting)
  obtain ⟨seg, hseg, hf⟩ := hspan.reads
  obtain ⟨ts, hts, -, hrem⟩ := Reader.tokens_of_remaining (hspan.ending.symm.trans hend)
  have hsig : significant (ts ++ [t]) = significant seg := by
    rw [significant_append, ← significant_filter_comment ts, hrem]
    have htokens : (Feed.ofText text).reader.remaining.1 = seg ++ s'.tokens := hseg
    rw [htokens, significant_append, hnil]
    simp [significant, hk, TokenKind.isLayout]
  refine ⟨text, ts ++ [t], htext, hts, ?_, ?_⟩
  · rw [hsig]
    exact Program.fits_items hf
  · intro u hu
    rw [hsig] at hu
    have hmem : u ∈ (Feed.ofText text).tape.tokens := by
      rw [hseg]
      exact List.mem_append_left _ (List.mem_filter.mp hu).1
    exact (Feed.ofText text).tape.spelled u hmem

/-- Reading passes the tokens of an accepted source, and its statements are derived from them. -/
theorem reads_of_parse {bytes : List UInt8} {p : Program} (h : parse bytes = .ok p) :
    ∃ text us k s', decodeSource bytes = .ok text ∧ parseText text = .ok p ∧
      lex bytes = .ok (us ++ [Reader.eofAt k]) ∧ Reader.Reaches (.ofText text) us ⟨k, []⟩ ∧
      (Feed.ofText text).tape.tokens = withoutComments us ∧
      ReadsStatements (ReadsExpression maxNesting) .eof (Feed.ofText text).tape p.statements s' := by
  obtain ⟨text, s', htext, hp, hs⟩ := readsProgram_of_parse h
  obtain ⟨text', ts, htext', hts, -⟩ := fits_of_parse h
  rw [htext] at htext'
  cases htext'
  have hlex : lex bytes = .ok ts := by rw [lex, htext]; exact hts
  obtain ⟨text', us, k, htext', rfl, hr⟩ := Reader.reaches_of_lex hlex
  rw [htext] at htext'
  cases htext'
  exact ⟨text, us, k, s', htext, hp, hlex, hr,
    congrArg Prod.fst (Reader.remaining_of_reaches_end hr), hs⟩

/-- **No token is lost, doubled or moved**: read off the tree from left to right, the tokens of an
accepted source are those that it spells, in kind and spelling, without comments, line feeds,
semicolons and the end of the input. -/
theorem yield_eq_tokens {bytes : List UInt8} {p : Program} (h : parse bytes = .ok p) :
    ∃ ts, lex bytes = .ok ts ∧ p.yield = (significant ts).map Token.code := by
  obtain ⟨text, ts, htext, hts, hf, -⟩ := fits_of_parse h
  refine ⟨ts, ?_, hf.codes⟩
  rw [lex, htext]
  exact hts

/-- A power is read off as a caret, however it is written, and a comment is not read off. -/
theorem yield_eq_tokens_of_power :
    ∃ ts, lex "x ** 2 # y\n".toUTF8.data.toList = .ok ts ∧
      Program.yield ⟨[.binary ⟨1, 1⟩ .pow (.mk (.identifier ⟨⟨1, 1⟩, "x", false⟩) [])
        (.mk (.constant ⟨⟨1, 6⟩, .integer, "2"⟩) [])]⟩ = (significant ts).map Token.code :=
  yield_eq_tokens (by rfl)

end RSource
