import RSource.Proofs.Partition
import RSource.Proofs.Uncommented

/-!
# Other characters between two tokens

Blanks end every token. If they stand in the place of what followed a token, the tokens up to that
one are read again.

* `splice` — a source with some of its bytes replaced.
* `Lexeme.Boundary.of_blank` — blanks end every token but a comment.
* `Reader.Reaches.cut_behind` — **the tokens up to some point are read again if what follows ends
  the last of them**.
* `Reader.remaining_joined` — what is left where blanks stand between two tokens.
-/

namespace RSource

/-! ## Blanks end tokens -/

/-- No code point is in two tables that have no code point in common. -/
theorem inRanges_disjoint {least least' n : Nat} {table table' : List (Nat × Nat)}
    (h : isAscending least table = true) (h' : isAscending least' table' = true)
    (hd : ∀ r ∈ table, ∀ s ∈ table', r.2 < s.1 ∨ s.2 < r.1) (hn : inRanges n table = true) :
    inRanges n table' = false := by
  rw [Bool.eq_false_iff]
  intro hn'
  obtain ⟨r, hr, hlo, hhi⟩ := (inRanges_iff h n).mp hn
  obtain ⟨s, hs, hlo', hhi'⟩ := (inRanges_iff h' n).mp hn'
  have := hd r hr s hs
  omega

namespace Lexeme

/-- No blank may stand in a name. -/
theorem inName_of_blank {c : Char} (h : isBlank c = true) : inName c = false := by
  have hspace : isWhiteSpace c = true := (isBlank_iff.mp h).1
  have halpha : isAlphabetic c = false :=
    inRanges_disjoint whiteSpaceRanges_isAscending alphabeticRanges_isAscending
      (by decide +kernel) hspace
  have hnum : isNumeric c = false :=
    inRanges_disjoint whiteSpaceRanges_isAscending numericRanges_isAscending
      (by decide +kernel) hspace
  have hdot : c ≠ '.' := by
    rintro rfl
    cases h
  have hline : c ≠ '_' := by
    rintro rfl
    cases h
  simp [inName, halpha, hnum, hdot, hline]

theorem symbols_tail_visible :
    (symbols.all fun s => s.1.tail.all fun c => !isBlank c) = true := by rfl

/-- Blanks end every token but a comment. -/
theorem Boundary.of_blank {z : List Char} (h : ∀ c ∈ z.head?, isBlank c = true) : Boundary z where
  nameEnd c hc := inName_of_blank (h c hc)
  symbol s hs c hc hmem := by
    have hvisible := List.all_eq_true.mp (List.all_eq_true.mp symbols_tail_visible s hs) c hmem
    rw [h c hc] at hvisible
    cases hvisible

end Lexeme

namespace Reader

/-! ## Tokens before other characters -/

/-- **The tokens up to some point are read again if what follows ends the last of them.** -/
theorem Reaches.cut_behind {r r₁ after : Reader} {ts : List Token} {t : Token} {z : List Char}
    (h : Reaches r ts r₁) (hn : r₁.next = .ok (t, after)) (hk : t.kind ≠ .eof)
    (hz : Lexeme.Boundary z) (hc : t.kind = .comment → ∀ c ∈ z.head?, c = '\n') :
    ∃ read, read ≠ [] ∧ r.rest = read ++ after.rest ∧ after.cursor = r.cursor.advance read ∧
      Reaches ⟨r.cursor, read ++ z⟩ (ts ++ [t]) ⟨after.cursor, z⟩ := by
  have hlast : ∀ {q : Reader}, q.next = .ok (t, after) →
      ∃ read, read ≠ [] ∧ q.rest = read ++ after.rest ∧ after.cursor = q.cursor.advance read ∧
        Reaches ⟨q.cursor, read ++ z⟩ [t] ⟨after.cursor, z⟩ := by
    intro q hq
    obtain ⟨read, hne, hrest, hcursor, hread⟩ := next_again (v := []) hq hk rfl hz hc
    exact ⟨read, hne, hrest, hcursor, .step hread hk (.here _)⟩
  induction h with
  | here => exact hlast hn
  | blanks r => exact hlast ((next_skipBlanks r).symm.trans hn)
  | @step r after' _ u ts hu hku _ ih =>
      obtain ⟨read, hne, hrest, hcursor, hreaches⟩ := ih hn
      -- The text goes on as before behind a comment too, so a line feed is what ends it.
      have hagain : ∃ w, r.rest = w ++ after'.rest ∧ after'.cursor = r.cursor.advance w ∧
          next ⟨r.cursor, w ++ (read ++ z)⟩ = .ok (u, ⟨after'.cursor, read ++ z⟩) := by
        by_cases hcomment : u.kind = .comment
        · obtain ⟨l, hl, rfl, hafter⟩ := next_ok hu
          have hline : ∀ c ∈ (read ++ z).head?, c = '\n' := by
            have hrest' := Lexeme.rest_of_comment hl hcomment
            have hl' : l.rest = read ++ after.rest := by rw [← hrest, hafter]
            rw [List.head?_append_of_ne_nil _ hne]
            rwa [hl', List.head?_append_of_ne_nil _ hne] at hrest'
          have hgap : Lexeme.Gap (read ++ z) := fun c hc => Or.inr (hline c hc)
          obtain ⟨w, -, hw⟩ := next_again (v := []) hu hku rfl hgap.boundary fun _ => hline
          exact ⟨w, hw⟩
        · obtain ⟨w, -, hw⟩ := next_again hu hku hrest hz fun h => absurd h hcomment
          exact ⟨w, hw⟩
      obtain ⟨w, hw, hcursor', hnext⟩ := hagain
      refine ⟨w ++ read, List.append_ne_nil_of_right_ne_nil _ hne, ?_, ?_, ?_⟩
      · rw [hw, hrest, List.append_assoc]
      · rw [hcursor, hcursor', Cursor.advance_append]
      · rw [List.append_assoc]
        exact .step hnext hku hreaches

/-- **What is left where blanks stand between two tokens**: the tokens up to the first of them, and
what is read from the second one on. -/
theorem remaining_joined {text : List Char} {ts lines : List Token} {t : Token}
    {r₁ after r₂ : Reader} (h : Reaches (.ofText text) ts r₁) (hn : r₁.next = .ok (t, after))
    (hk : t.kind ≠ .eof) (hc : t.kind ≠ .comment) (hl : Reaches after lines r₂) {sp : List Char}
    (hsp : ∀ c ∈ sp, isBlank c = true) (hne : sp ≠ []) :
    ∃ front gap, text = front ++ (gap ++ r₂.rest) ∧ after.cursor = Cursor.start.advance front ∧
      r₂.cursor = after.cursor.advance gap ∧
      (ofText (front ++ (sp ++ r₂.rest))).remaining =
        (withoutComments (ts ++ [t]) ++ (remaining ⟨after.cursor.advance sp, r₂.rest⟩).1,
          (remaining ⟨after.cursor.advance sp, r₂.rest⟩).2) := by
  have hz : Lexeme.Boundary (sp ++ r₂.rest) := by
    refine .of_blank fun c hmem => hsp c ?_
    rw [List.head?_append_of_ne_nil _ hne] at hmem
    exact List.mem_of_mem_head? hmem
  obtain ⟨front, -, hfront, hcursor, hcut⟩ := h.cut_behind hn hk hz fun h => absurd h hc
  obtain ⟨gap, hgap, hcursor', -⟩ := hl.cut []
  refine ⟨front, gap, ?_, hcursor, hcursor', ?_⟩
  · rw [← hgap]
    exact hfront
  · rw [← remaining_blanks hsp]
    exact remaining_of_reaches hcut

end Reader

/-! ## Bytes -/

/-- A source with the bytes from one offset up to another replaced by some characters. -/
def splice (bytes : List UInt8) (start stop : Nat) (cs : List Char) : List UInt8 :=
  bytes.take start ++ cs.flatMap String.utf8EncodeChar ++ bytes.drop stop

theorem decodeSource_splice {bytes : List UInt8} {front gap rest : List Char} {start stop : Nat}
    (h : decodeSource bytes = .ok (front ++ (gap ++ rest)))
    (hstart : start = (front.flatMap String.utf8EncodeChar).length)
    (hstop : stop = start + (gap.flatMap String.utf8EncodeChar).length) (cs : List Char) :
    decodeSource (splice bytes start stop cs) = .ok (front ++ (cs ++ rest)) := by
  rw [decodeSource_iff] at h ⊢
  have hdrop : bytes.drop stop = rest.flatMap String.utf8EncodeChar := by
    rw [h, hstop, hstart, ← List.drop_drop, List.flatMap_append, List.drop_left,
      List.flatMap_append, List.drop_left]
  have htake : bytes.take start = front.flatMap String.utf8EncodeChar := by
    rw [h, hstart, List.flatMap_append, List.take_left]
  rw [splice, hdrop, htake, List.flatMap_append, List.flatMap_append, List.append_assoc]

end RSource
