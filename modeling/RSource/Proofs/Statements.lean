import RSource.Proofs.Reaching
import RSource.Proofs.StretchesExpression
import RSource.Proofs.Yield

/-!
# Statements in a source

* `Program.statementLists` — the statements of a program and of its blocks, each list with the
  number of the tokens in front of it.
* `statements_are_split` — **where a line break ends a statement**: the tokens of an accepted
  source, comments apart, split into the statements of each list.
-/

namespace RSource

open Grammar

/-- The statements of the program and those of its blocks, each list with the number of tokens in
front of it that are part of an expression. -/
def Program.statementLists (p : Program) : List (Nat × List Expression) :=
  (0, p.statements) :: p.operands.filterMap fun
    | (n, .block _ es _) => some (n + 1, es)
    | _ => none

theorem Program.mem_statementLists {p : Program} {l : Nat × List Expression}
    (h : l ∈ p.statementLists) : l = (0, p.statements) ∨
      ∃ n loc close, (n, Operand.block loc l.2 close) ∈ p.operands ∧ l.1 = n + 1 := by
  rcases List.mem_cons.mp h with h | h
  · exact Or.inl h
  · obtain ⟨⟨n, x⟩, hmem, hx⟩ := List.mem_filterMap.mp h
    cases x with
    | block loc es close =>
        cases hx
        exact Or.inr ⟨n, loc, close, hmem, rfl⟩
    | _ => cases hx

/-- **Where a line break ends a statement.** The tokens of an accepted source without its comments
hold each list of statements split: behind a statement stand line feeds and semicolons, or else the
next token neither opens a bracket behind an operand nor is an operator between two; and no line
feed within a statement, outside the brackets that it opens, stands where it would end one. -/
theorem statements_are_split {bytes : List UInt8} {p : Program} (h : parse bytes = .ok p) :
    ∃ ts tokens eof, lex bytes = .ok ts ∧ withoutComments ts = tokens ++ [eof] ∧
      eof.kind = .eof ∧ ∀ l ∈ p.statementLists, ∃ before after, tokens = before ++ after ∧
        (significant before).length = l.1 ∧
        (Scope.start.run (before.map (·.kind))).isFree = false ∧
        Splits (Scope.start.run (before.map (·.kind))) l.2 after := by
  obtain ⟨text, s', htext, -, hs⟩ := readsProgram_of_parse h
  obtain ⟨eof, heof, hk⟩ := hs.ends
  have hC := covers_readsExpression maxNesting
  have hE := stretches_readsExpression maxNesting
  obtain ⟨-, hend⟩ := Tape.significant_of_eof heof hk
  obtain ⟨ts, hts, -, hrem⟩ := Reader.tokens_of_remaining ((hs.spans hC).ending.symm.trans hend)
  have hl : (Feed.ofText text).tape.layouts = ([] : List Bracket).map Bracket.layout := rfl
  refine ⟨ts ++ [eof], (Feed.ofText text).tape.tokens, eof, ?_, ?_, hk, ?_⟩
  · rw [lex, htext]
    exact hts
  · unfold withoutComments
    rw [List.filter_append, hrem]
    simp [hk, Feed.tape]
  · intro l hmem
    rcases Program.mem_statementLists hmem with rfl | ⟨n, loc, close, hblock, hnumber⟩
    · have hsplits := hs.splits hE hC (tied_readsExpression maxNesting) (Or.inr ⟨rfl, rfl⟩) hl rfl
      exact ⟨[], _, rfl, rfl, rfl, hsplits⟩
    · have hstretch := hs.stretch (d := 0) hE (Nat.zero_le _) hl 0 false
      obtain ⟨before, after, htok, hnum, hfree, hsplit⟩ := hstretch.blocks n loc l.2 close hblock
      rw [Spot.scope_run] at hfree hsplit
      rw [Spot.number_run, Nat.zero_add] at hnum
      exact ⟨before, after, htok, hnum.trans hnumber.symm, hfree, hsplit⟩

/-- A condition and an operator go on in the next line, an `else` in braces goes on with the line
before, and a statement may stand right behind another. -/
theorem statements_are_split_of_else :
    ∃ ts tokens eof, lex "\x7bif (a)\nb\nelse -\nc; d e\x7d\n".toUTF8.data.toList = .ok ts ∧
      withoutComments ts = tokens ++ [eof] ∧ eof.kind = .eof ∧
      ∀ l ∈ Program.statementLists ⟨[.term ⟨1, 1⟩ (.mk (.block ⟨1, 1⟩
          [.term ⟨1, 2⟩ (.mk (.ifElse ⟨1, 2⟩
              (.term ⟨1, 6⟩ (.mk (.identifier ⟨⟨1, 6⟩, "a", false⟩) []))
              (.term ⟨2, 1⟩ (.mk (.identifier ⟨⟨2, 1⟩, "b", false⟩) []))
              (.unary ⟨3, 6⟩ .minus (.mk (.identifier ⟨⟨4, 1⟩, "c", false⟩) []))) []),
            .term ⟨4, 4⟩ (.mk (.identifier ⟨⟨4, 4⟩, "d", false⟩) []),
            .term ⟨4, 6⟩ (.mk (.identifier ⟨⟨4, 6⟩, "e", false⟩) [])] ⟨4, 7⟩) [])]⟩,
        ∃ before after, tokens = before ++ after ∧ (significant before).length = l.1 ∧
          (Scope.start.run (before.map (·.kind))).isFree = false ∧
          Splits (Scope.start.run (before.map (·.kind))) l.2 after :=
  statements_are_split (by rfl)

end RSource
