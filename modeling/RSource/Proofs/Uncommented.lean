import RSource.Proofs.Parting
import RSource.Proofs.Spacing

/-!
# A source without its comments

What is left of a source without its comments is read as the same tokens: a comment stands before a
line feed or at the end, and there every token ends.

* `outside` — the bytes at the offsets that are not hidden.
* `uncommented` — the bytes that stand in no comment.
* `Reader.Strips` — what reading passes, and what is kept of it without comments.
* `Reader.Strips.outside` — the bytes of what is kept.
* `Reader.Strips.cut` — what is kept cuts the text off where a comment stood.
* `Reader.Stripped` — the tokens of what is kept beside those that were read.
* `Reader.Strips.stripped` — **what is kept is read as the tokens that are no comments**.
-/

namespace RSource

/-! ## Bytes in no comment -/

/-- Whether the token is a comment that covers the offset. -/
def Token.hides (t : Token) (i : Nat) : Bool :=
  t.kind == .comment && decide (t.offset ≤ i) && decide (i < t.stop)

/-- The bytes at the offsets that are not hidden, where the first of them has the offset `k`. -/
def outside (hidden : Nat → Bool) (k : Nat) (bytes : List UInt8) : List UInt8 :=
  ((bytes.zipIdx k).filter fun p => !hidden p.2).map (·.1)

/-- The bytes that stand in no comment. -/
def uncommented (ts : List Token) (bytes : List UInt8) : List UInt8 :=
  outside (fun i => ts.any (·.hides i)) 0 bytes

section Outside

variable {hidden : Nat → Bool} {k : Nat} {bytes : List UInt8}

theorem outside_append (xs ys : List UInt8) :
    outside hidden k (xs ++ ys) = outside hidden k xs ++ outside hidden (k + xs.length) ys := by
  rw [outside, List.zipIdx_append, List.filter_append, List.map_append]
  rfl

theorem outside_all (h : ∀ i, k ≤ i → i < k + bytes.length → hidden i = false) :
    outside hidden k bytes = bytes := by
  have hfilter : (bytes.zipIdx k).filter (fun p => !hidden p.2) = bytes.zipIdx k := by
    refine List.filter_eq_self.mpr fun p hp => ?_
    rw [h p.2 (List.le_snd_of_mem_zipIdx hp) (List.snd_lt_add_of_mem_zipIdx hp)]
    rfl
  rw [outside, hfilter, List.zipIdx_map_fst]

theorem outside_none (h : ∀ i, k ≤ i → i < k + bytes.length → hidden i = true) :
    outside hidden k bytes = [] := by
  have hfilter : (bytes.zipIdx k).filter (fun p => !hidden p.2) = [] := by
    refine List.filter_eq_nil_iff.mpr fun p hp => ?_
    rw [h p.2 (List.le_snd_of_mem_zipIdx hp) (List.snd_lt_add_of_mem_zipIdx hp)]
    decide
  rw [outside, hfilter, List.map_nil]

end Outside

/-! ## What is kept -/

/-- The new text is the old one up to some point, from which no token that has begun goes on. -/
def Cut (old new : List Char) : Prop :=
  ∃ v post z, old = v ++ post ∧ new = v ++ z ∧ Lexeme.Boundary z

theorem Cut.append {old new : List Char} (h : Cut old new) (cs : List Char) :
    Cut (cs ++ old) (cs ++ new) := by
  obtain ⟨v, post, z, rfl, rfl, hz⟩ := h
  exact ⟨cs ++ v, post, z, by rw [List.append_assoc], by rw [List.append_assoc], hz⟩

theorem Cut.of_boundary (old : List Char) {new : List Char} (h : Lexeme.Boundary new) :
    Cut old new :=
  ⟨[], old, new, rfl, rfl, h⟩

namespace Reader

variable {r r' after : Reader} {t : Token} {ts : List Token} {kept z : List Char}

/-- Reading the tokens takes the reader to another one, and these are the characters that it passes
without those of the comments. -/
inductive Strips : Reader → List Token → Reader → List Char → Prop where
  | here (r : Reader) : Strips r [] r []
  | blanks (r : Reader) : Strips r [] r.skipBlanks (Lexeme.blanks r.rest)
  | token {r after r' : Reader} {t : Token} {ts : List Token} {kept : List Char}
      (h : r.next = .ok (t, after)) (he : t.kind ≠ .eof) (hc : t.kind ≠ .comment)
      (hs : Strips after ts r' kept) :
      Strips r (t :: ts) r' (Lexeme.blanks r.rest ++ (t.lexeme.toList ++ kept))
  | comment {r after r' : Reader} {t : Token} {ts : List Token} {kept : List Char}
      (h : r.next = .ok (t, after)) (hc : t.kind = .comment) (hs : Strips after ts r' kept) :
      Strips r (t :: ts) r' (Lexeme.blanks r.rest ++ kept)

theorem Reaches.exists_strips (h : Reaches r ts r') : ∃ kept, Strips r ts r' kept := by
  induction h with
  | here r => exact ⟨[], .here r⟩
  | blanks r => exact ⟨_, .blanks r⟩
  | @step r after r' t ts hn hk hr ih =>
      obtain ⟨kept, hs⟩ := ih
      by_cases hc : t.kind = .comment
      · exact ⟨_, .comment hn hc hs⟩
      · exact ⟨_, .token hn hk hc hs⟩

theorem Strips.reaches (h : Strips r ts r' kept) : Reaches r ts r' := by
  induction h with
  | here r => exact .here r
  | blanks r => exact .blanks r
  | token hn he hc hs ih => exact .step hn he ih
  | comment hn hc hs ih => exact .step hn (by rw [hc]; decide) ih

theorem offset_blanks (hn : r.next = .ok (t, after)) :
    t.offset = r.cursor.offset +
      ((Lexeme.blanks r.rest).flatMap String.utf8EncodeChar).length := by
  rw [← Cursor.offset_advance, ← (next_split hn).2.1]
  rfl

/-- Reading a token and what follows it is reading both. -/
theorem read_split {read : List Char} (hn : r.next = .ok (t, after))
    (hread : after.rest = read ++ r'.rest) (hcursor : r'.cursor = after.cursor.advance read) :
    r.rest = Lexeme.blanks r.rest ++ (t.lexeme.toList ++ read) ++ r'.rest ∧
      r'.cursor = r.cursor.advance (Lexeme.blanks r.rest ++ (t.lexeme.toList ++ read)) := by
  obtain ⟨hrest, hstart, hafter⟩ := next_split hn
  refine ⟨?_, ?_⟩
  · rw [List.append_assoc, List.append_assoc, ← hread]
    exact hrest
  · rw [hcursor, hafter, hstart, Cursor.advance_append, Cursor.advance_append]

/-- A token hides nothing before or behind it, nor do those that come later. -/
theorem hides_split {hidden : Nat → Bool} (hn : r.next = .ok (t, after))
    (hr : Reaches after ts r') (hhidden : ∀ i, r.cursor.offset ≤ i → i < r'.cursor.offset →
      hidden i = (t :: ts).any (·.hides i)) :
    (∀ i, r.cursor.offset ≤ i → i < after.cursor.offset → hidden i = t.hides i) ∧
      ∀ i, after.cursor.offset ≤ i → i < r'.cursor.offset → hidden i = ts.any (·.hides i) := by
  obtain ⟨hfirst, -, hle, -⟩ := hr.offsets
  obtain ⟨hbefore, hstop⟩ := next_offset hn
  refine ⟨fun i hi hlt => ?_, fun i hi hlt => ?_⟩
  · have hlater : ts.any (·.hides i) = false := by
      refine List.any_eq_false.mpr fun u hu => ?_
      have := hfirst u hu
      simp only [Token.hides, Bool.and_eq_true, decide_eq_true_eq, not_and]
      omega
    rw [hhidden i hi (by omega), List.any_cons, hlater, Bool.or_false]
  · have hpast : t.hides i = false := by
      have : ¬ i < t.stop := by rw [Token.stop, Token.bytes]; omega
      simp [Token.hides, this]
    rw [hhidden i (by omega) hlt, List.any_cons, hpast, Bool.false_or]

/-- What is left of a token: the blanks before it, and its bytes if it is no comment. -/
theorem outside_next {hidden : Nat → Bool} (hn : r.next = .ok (t, after))
    (hhides : ∀ i, r.cursor.offset ≤ i → i < after.cursor.offset → hidden i = t.hides i)
    (read : List Char) :
    outside hidden r.cursor.offset
        ((Lexeme.blanks r.rest ++ (t.lexeme.toList ++ read)).flatMap String.utf8EncodeChar) =
      (Lexeme.blanks r.rest).flatMap String.utf8EncodeChar ++
        ((if t.kind = .comment then [] else t.bytes) ++
          outside hidden after.cursor.offset (read.flatMap String.utf8EncodeChar)) := by
  have hstart := offset_blanks hn
  have hstop : after.cursor.offset = t.offset + t.bytes.length := (next_offset hn).2
  have hblanks : outside hidden r.cursor.offset
      ((Lexeme.blanks r.rest).flatMap String.utf8EncodeChar) =
        (Lexeme.blanks r.rest).flatMap String.utf8EncodeChar := by
    refine outside_all fun i hi hlt => ?_
    have hbefore : ¬ t.offset ≤ i := by omega
    rw [hhides i hi (by omega)]
    simp [Token.hides, hbefore]
  have hlexeme : outside hidden t.offset t.bytes =
      if t.kind = .comment then [] else t.bytes := by
    have hcovers (i : Nat) (hi : t.offset ≤ i) (hlt : i < t.offset + t.bytes.length) :
        hidden i = (t.kind == .comment) := by
      rw [hhides i (by omega) (by omega)]
      simp [Token.hides, Token.stop, hi, hlt]
    split
    · rename_i hc
      exact outside_none fun i hi hlt => by rw [hcovers i hi hlt, hc]; rfl
    · rename_i hc
      exact outside_all fun i hi hlt => by rw [hcovers i hi hlt]; simpa using hc
  rw [List.flatMap_append, List.flatMap_append, outside_append, outside_append, ← hstart, hblanks]
  rw [show t.lexeme.toList.flatMap String.utf8EncodeChar = t.bytes from rfl, ← hstop, hlexeme]

/-- **The bytes of what is kept are those of what is read that stand in no comment.** -/
theorem Strips.outside {hidden : Nat → Bool} (h : Strips r ts r' kept)
    (hhidden : ∀ i, r.cursor.offset ≤ i → i < r'.cursor.offset → hidden i = ts.any (·.hides i)) :
    ∃ read, r.rest = read ++ r'.rest ∧ r'.cursor = r.cursor.advance read ∧
      outside hidden r.cursor.offset (read.flatMap String.utf8EncodeChar) =
        kept.flatMap String.utf8EncodeChar := by
  induction h with
  | here r => exact ⟨[], rfl, rfl, rfl⟩
  | blanks r =>
      refine ⟨Lexeme.blanks r.rest, (Lexeme.blanks_append_afterBlanks _).symm, rfl, ?_⟩
      refine outside_all fun i hi hlt => hhidden i hi ?_
      rwa [skipBlanks, Cursor.offset_advance]
  | token hn he hc hs ih =>
      obtain ⟨hhides, hrest⟩ := hides_split hn hs.reaches hhidden
      obtain ⟨read, hread, hcursor, hkept⟩ := ih hrest
      obtain ⟨hsource, hend⟩ := read_split hn hread hcursor
      refine ⟨_, hsource, hend, ?_⟩
      rw [outside_next hn hhides, if_neg hc, hkept, List.flatMap_append, List.flatMap_append]
      rfl
  | comment hn hc hs ih =>
      obtain ⟨hhides, hrest⟩ := hides_split hn hs.reaches hhidden
      obtain ⟨read, hread, hcursor, hkept⟩ := ih hrest
      obtain ⟨hsource, hend⟩ := read_split hn hread hcursor
      refine ⟨_, hsource, hend, ?_⟩
      rw [outside_next hn hhides, if_pos hc, hkept, List.flatMap_append]
      rfl

/-! ## Reading what is kept -/

/-- Where a line feed stands, it is read. -/
theorem next_newline (hn : r.next = .ok (t, after)) (he : t.kind ≠ .eof)
    (hr : ∀ c ∈ r.rest.head?, c = '\n') :
    Lexeme.blanks r.rest = [] ∧ t.kind = .newline ∧ t.lexeme.toList = ['\n'] := by
  obtain ⟨l, hl, rfl, rfl⟩ := next_ok hn
  cases hrest : r.rest with
  | nil =>
      rw [hrest] at hl
      cases hl
      exact absurd rfl he
  | cons c cs =>
      rw [hrest] at hr hl
      obtain rfl := hr c rfl
      cases hl
      exact ⟨rfl, rfl, String.toList_ofList⟩

/-- Behind a comment its line ends. -/
theorem rest_of_comment (hn : r.next = .ok (t, after)) (hc : t.kind = .comment) :
    ∀ c ∈ after.rest.head?, c = '\n' := by
  obtain ⟨l, hl, rfl, rfl⟩ := next_ok hn
  exact Lexeme.rest_of_comment hl hc

/-- **What is kept cuts the text off where a comment stood**, and there a line feed stands or what
was written behind. -/
theorem Strips.cut (h : Strips r ts r' kept) (hz : Lexeme.Boundary z) :
    Cut r.rest (kept ++ z) ∧
      ((∀ c ∈ r.rest.head?, c = '\n') → Lexeme.Boundary (kept ++ z)) := by
  induction h with
  | here r => exact ⟨.of_boundary _ hz, fun _ => hz⟩
  | blanks r =>
      refine ⟨?_, fun hr => ?_⟩
      · have hcut := (Cut.of_boundary (Lexeme.afterBlanks r.rest) hz).append
          (Lexeme.blanks r.rest)
        rwa [Lexeme.blanks_append_afterBlanks] at hcut
      · have hnone : Lexeme.blanks r.rest = [] := by
          refine (Lexeme.run_stop fun c hc => ?_).1
          rw [hr c hc]
          rfl
        rwa [hnone]
  | @token r after r' t ts kept hn he hc hs ih =>
      refine ⟨?_, fun hr => ?_⟩
      · have hcut := (ih.1.append t.lexeme.toList).append (Lexeme.blanks r.rest)
        rwa [← (next_split hn).1, ← List.append_assoc t.lexeme.toList,
          ← List.append_assoc (Lexeme.blanks r.rest)] at hcut
      · obtain ⟨hblanks, -, hlexeme⟩ := next_newline hn he hr
        rw [hblanks, hlexeme]
        exact (Lexeme.Gap.cons_newline _).boundary
  | @comment r after r' t ts kept hn hc hs ih =>
      refine ⟨?_, fun hr => ?_⟩
      · have hcut := (Cut.of_boundary (t.lexeme.toList ++ after.rest)
          (ih.2 (rest_of_comment hn hc))).append (Lexeme.blanks r.rest)
        rwa [← (next_split hn).1, ← List.append_assoc] at hcut
      · have hline := (next_newline hn (by rw [hc]; decide) hr).2.1
        rw [hc] at hline
        cases hline

/-- The tokens of what is kept, which is read from the offset `k` on, beside those that were read
before. -/
structure Stripped (r : Reader) (k : Nat) (ts : List Token) (ps : List (Token × Token)) :
    Prop where
  before : ps.map (·.1) = withoutComments ts
  like : ∀ p ∈ ps, Like p.1 p.2
  starts : ∀ p ∈ ps, r.cursor.offset ≤ p.1.offset ∧ k ≤ p.2.offset
  /-- A closing bracket stands right here in both texts or in neither. -/
  closes : ∀ p ∈ ps, p.1.kind = .rbracket → (p.1.offset = r.cursor.offset ↔ p.2.offset = k)
  /-- Where a line feed stands, none does. -/
  lines : (∀ c ∈ r.rest.head?, c = '\n') → ∀ p ∈ ps, p.1.kind = .rbracket → k < p.2.offset
  alongside : ps.Pairwise Alongside

theorem Stripped.nil (r : Reader) (k : Nat) : Stripped r k [] [] :=
  ⟨rfl, by simp, by simp, by simp, by simp, .nil⟩

variable {s after' : Reader} {u : Token} {ps : List (Token × Token)} {k k' : Nat}

/-- A token that is no comment is read in both texts. -/
theorem Stripped.token (h : Stripped after after'.cursor.offset ts ps)
    (hn : r.next = .ok (t, after)) (he : t.kind ≠ .eof) (hc : t.kind ≠ .comment)
    (hn' : s.next = .ok (u, after')) (hlike : Like t u)
    (hblanks : Lexeme.blanks s.rest = Lexeme.blanks r.rest) :
    Stripped r s.cursor.offset (t :: ts) ((t, u) :: ps) := by
  have hlt := next_offset_lt hn he
  have hlt' := next_offset_lt hn' (by rwa [hlike.kind])
  have hstart := offset_blanks hn
  have hstart' := offset_blanks hn'
  rw [hblanks] at hstart'
  have hstop := (next_offset hn).2
  have hstop' := (next_offset hn').2
  rw [hlike.lexeme] at hstop'
  have hlater : ∀ p ∈ ps, r.cursor.offset < p.1.offset ∧ s.cursor.offset < p.2.offset := by
    intro p hp
    have := h.starts p hp
    omega
  refine ⟨?_, ?_, ?_, ?_, ?_, List.pairwise_cons.mpr ⟨?_, h.alongside⟩⟩
  · rw [List.map_cons, h.before, withoutComments_cons]
    simp [withoutComments, hc]
  · exact List.forall_mem_cons.mpr ⟨hlike, h.like⟩
  · refine List.forall_mem_cons.mpr ⟨by simp only; omega, fun p hp => ?_⟩
    have := hlater p hp
    omega
  · refine List.forall_mem_cons.mpr ⟨fun _ => by simp only; omega, fun p hp _ => ?_⟩
    have := hlater p hp
    omega
  · intro hr
    refine List.forall_mem_cons.mpr ⟨fun hk => ?_, fun p hp _ => (hlater p hp).2⟩
    rw [(next_newline hn he hr).2.1] at hk
    cases hk
  · intro p hp hk
    -- The token is one byte long, or what closes behind it adjoins it in neither text.
    have := h.closes p hp hk
    have := h.starts p hp
    simp only
    omega

/-- A comment is read in the one text alone, and behind it no bracket closes before a line feed. -/
theorem Stripped.comment (h : Stripped after k' ts ps) (hn : r.next = .ok (t, after))
    (hc : t.kind = .comment) (hle : k ≤ k') : Stripped r k (t :: ts) ps := by
  have he : t.kind ≠ .eof := by rw [hc]; decide
  have hlt := next_offset_lt hn he
  have hstart := (next_offset hn).1
  refine ⟨?_, h.like, fun p hp => ?_, fun p hp hk => ?_, fun hr => ?_, h.alongside⟩
  · rw [h.before, withoutComments_cons]
    simp [withoutComments, hc]
  · have := h.starts p hp
    omega
  · have := h.starts p hp
    have := h.lines (rest_of_comment hn hc) p hp hk
    omega
  · have hline := (next_newline hn he hr).2.1
    rw [hc] at hline
    cases hline

/-- Blanks may be passed over before reading. -/
theorem remaining_blanks {sp : List Char} (hsp : ∀ c ∈ sp, isBlank c = true) (k : Cursor)
    (cs : List Char) : remaining ⟨k, sp ++ cs⟩ = remaining ⟨k.advance sp, cs⟩ := by
  have hskip : skipBlanks ⟨k, sp ++ cs⟩ = skipBlanks ⟨k.advance sp, cs⟩ := by
    simp only [skipBlanks, Lexeme.blanks, Lexeme.afterBlanks]
    rw [List.takeWhile_append_of_pos hsp, List.dropWhile_append_of_pos hsp, Cursor.advance_append]
  rw [← remaining_skipBlanks, hskip, remaining_skipBlanks]

/-- **What is kept is read as the tokens that are no comments**, wherever it stands, and then what
is written behind it. -/
theorem Strips.stripped (h : Strips r ts r' kept) (hz : Lexeme.Boundary z) (k : Cursor) :
    ∃ ps, Stripped r k.offset ts ps ∧
      remaining ⟨k, kept ++ z⟩ = (ps.map (·.2) ++ (remaining ⟨k.advance kept, z⟩).1,
        (remaining ⟨k.advance kept, z⟩).2) := by
  have hblank (cs : List Char) : ∀ c ∈ Lexeme.blanks cs, isBlank c = true :=
    fun _ => List.mem_takeWhile_imp
  induction h generalizing k with
  | here r => exact ⟨[], .nil r _, rfl⟩
  | blanks r => exact ⟨[], .nil r _, remaining_blanks (hblank _) k z⟩
  | @token r after r' t ts kept hn he hc hs ih =>
      obtain ⟨v, post, z', hold, hnew, hz'⟩ := (hs.cut hz).1
      obtain ⟨l, hl, rfl, rfl⟩ := next_ok hn
      have hscan := Lexeme.scan_again (Lexeme.reading_of_scan hl) hold hz'
        (fun h => absurd h hc) he
      have hvisible := (Lexeme.spells_of_scan hl).visible_append he (v ++ z')
      rw [← hnew] at hscan hvisible
      have hn' := next_of_scan (r := ⟨k, Lexeme.blanks r.rest ++ (l.text ++ (kept ++ z))⟩) rfl
        (hblank r.rest) hvisible hscan
      obtain ⟨ps, hps, hremaining⟩ := ih ((k.advance (Lexeme.blanks r.rest)).advance l.text)
      refine ⟨_, hps.token hn he hc hn' ⟨rfl, rfl, rfl⟩
        (Lexeme.blanks_append (hblank r.rest) hvisible).1, ?_⟩
      simp only [String.toList_ofList, List.append_assoc]
      rw [remaining_of_next hn' hc he, hremaining]
      simp only [Cursor.advance_append, List.map_cons, List.cons_append]
  | @comment r after r' t ts kept hn hc hs ih =>
      obtain ⟨ps, hps, hremaining⟩ := ih (k.advance (Lexeme.blanks r.rest))
      refine ⟨ps, hps.comment hn hc ?_, ?_⟩
      · rw [Cursor.offset_advance]
        exact Nat.le_add_right _ _
      · rw [List.append_assoc, remaining_blanks (hblank _), hremaining, Cursor.advance_append]

end Reader

end RSource
