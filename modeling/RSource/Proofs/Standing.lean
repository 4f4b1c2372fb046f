import RSource.Proofs.Cutting
import RSource.Session

/-!
# Where reading stands

A reader stands in a text where the characters that it has read take it. So it does from the start
of the text on, whether all tokens are read at once or a session is asked for one after another.

* `Token.bytes`, `Token.stop`, `Token.cursor` — the bytes of a token, where they end and where they
  start.
* `Reader.StandsIn` — the reader stands in the text where what it has read takes it.
* `Reader.next_split` — a token is read behind some blanks, and reading goes on behind it.
* `Reader.lexText_iff` — **the tokens of a text are those that reading passes, and its end**.
* `Reader.reaches_of_lexText_error` — **a fault is found behind the tokens that reading passes**.
* `Session.found_of_run` — **a session that reads on finds what a reader finds in its text**.
-/

namespace RSource

/-- The bytes of a token's lexeme. -/
def Token.bytes (t : Token) : List UInt8 := t.lexeme.toList.flatMap String.utf8EncodeChar

/-- The byte offset behind a token. -/
def Token.stop (t : Token) : Nat := t.offset + t.bytes.length

/-- Where a token starts. -/
def Token.cursor (t : Token) : Cursor := ⟨t.offset, t.loc⟩

theorem Reader.stop_of_next {r after : Reader} {t : Token} (h : r.next = .ok (t, after)) :
    t.stop = after.cursor.offset :=
  (next_offset h).2.symm

/-- From the start a cursor passes the bytes of the characters. -/
theorem Cursor.offset_start_advance (cs : List Char) :
    (Cursor.start.advance cs).offset = (cs.flatMap String.utf8EncodeChar).length := by
  rw [offset_advance]
  exact Nat.zero_add _

namespace Reader

/-- The reader stands in the text where the characters that it has read take it. -/
def StandsIn (text : List Char) (r : Reader) : Prop :=
  ∃ read, text = read ++ r.rest ∧ r.cursor = Cursor.start.advance read

variable {text : List Char} {r after : Reader} {t : Token}

theorem standsIn_ofText (text : List Char) : (ofText text).StandsIn text := ⟨[], rfl, rfl⟩

/-- Behind more characters a reader stands in the text again. -/
theorem StandsIn.behind (h : r.StandsIn text) {cs rest : List Char} (hrest : r.rest = cs ++ rest) :
    StandsIn text ⟨r.cursor.advance cs, rest⟩ := by
  obtain ⟨read, htext, hcursor⟩ := h
  refine ⟨read ++ cs, ?_, ?_⟩
  · rw [htext, hrest, List.append_assoc]
  · rw [hcursor, Cursor.advance_append]

theorem StandsIn.skipBlanks (h : r.StandsIn text) : r.skipBlanks.StandsIn text :=
  h.behind (Lexeme.blanks_append_afterBlanks r.rest).symm

/-- The bytes from where a reader stands are those of the characters that it has left. -/
theorem StandsIn.drop (h : r.StandsIn text) :
    (text.flatMap String.utf8EncodeChar).drop r.cursor.offset =
      r.rest.flatMap String.utf8EncodeChar := by
  obtain ⟨read, rfl, hcursor⟩ := h
  rw [hcursor, Cursor.offset_start_advance, List.flatMap_append, List.drop_left]

/-- A token is read behind some blanks, and reading goes on behind it. -/
theorem next_split (h : r.next = .ok (t, after)) :
    r.rest = Lexeme.blanks r.rest ++ (t.lexeme.toList ++ after.rest) ∧
      t.cursor = r.cursor.advance (Lexeme.blanks r.rest) ∧
      after.cursor = t.cursor.advance t.lexeme.toList := by
  obtain ⟨l, hl, rfl, rfl⟩ := next_ok h
  refine ⟨?_, rfl, ?_⟩
  · simp only [String.toList_ofList]
    rw [Lexeme.scan_split hl, Lexeme.blanks_append_afterBlanks]
  · simp only [String.toList_ofList]
    rfl

/-- Where a token starts, the text goes on with its lexeme and with what is left behind it. -/
theorem StandsIn.at_token (h : r.StandsIn text) (hn : r.next = .ok (t, after)) :
    StandsIn text ⟨t.cursor, t.lexeme.toList ++ after.rest⟩ := by
  obtain ⟨hrest, hcursor, -⟩ := next_split hn
  rw [hcursor]
  exact h.behind hrest

theorem StandsIn.drop_token (h : r.StandsIn text) (hn : r.next = .ok (t, after)) :
    (text.flatMap String.utf8EncodeChar).drop t.offset =
      (t.lexeme.toList ++ after.rest).flatMap String.utf8EncodeChar :=
  (h.at_token hn).drop

/-- The bytes of a token start where it stands in the text. -/
theorem StandsIn.starts (h : r.StandsIn text) (hn : r.next = .ok (t, after)) :
    t.bytes <+: (text.flatMap String.utf8EncodeChar).drop t.offset := by
  rw [h.drop_token hn, List.flatMap_append]
  exact List.prefix_append _ _

theorem StandsIn.next (h : r.StandsIn text) (hn : r.next = .ok (t, after)) :
    after.StandsIn text := by
  obtain ⟨-, -, hafter⟩ := next_split hn
  have hstands : StandsIn text ⟨t.cursor.advance t.lexeme.toList, after.rest⟩ :=
    (h.at_token hn).behind rfl
  rwa [← hafter] at hstands

theorem Reaches.standsIn {r' : Reader} {ts : List Token} (h : Reaches r ts r')
    (hr : r.StandsIn text) : r'.StandsIn text := by
  induction h with
  | here => exact hr
  | blanks r => exact hr.skipBlanks
  | step hn hk hreaches ih => exact ih (hr.next hn)

/-! ## All tokens of a text -/

theorem next_end (k : Cursor) : next ⟨k, []⟩ = .ok (eofAt k, ⟨k, []⟩) := rfl

theorem tokensWithin_of_reaches {left : List Char} {ts : List Token} {k : Cursor}
    (hl : r.rest.length ≤ left.length) (h : Reaches r ts ⟨k, []⟩) :
    tokensWithin left r = .ok (ts ++ [eofAt k]) := by
  generalize hend : (⟨k, []⟩ : Reader) = r' at h
  -- Where no token is left, the end is read, blanks or not.
  have hlast {r : Reader} (left : List Char) (hn : r.next = .ok (eofAt k, ⟨k, []⟩)) :
      tokensWithin left r = .ok [eofAt k] := by
    cases left with
    | nil => rw [tokensWithin, hn]
    | cons c left =>
        rw [tokensWithin, hn]
        rfl
  induction h generalizing left with
  | here r =>
      subst hend
      exact hlast left (next_end k)
  | blanks r =>
      have hn : r.next = .ok (eofAt k, ⟨k, []⟩) := by rw [← next_skipBlanks, ← hend, next_end]
      exact hlast left hn
  | step hn hk hreaches ih =>
      have hlt := next_rest_lt hn hk
      cases left with
      | nil =>
          simp only [List.length_nil] at hl
          omega
      | cons c left =>
          simp only [List.length_cons] at hl
          have hrest := ih (show _ ≤ left.length by omega) hend
          rw [tokensWithin, hn]
          simp only [if_neg hk, hrest]
          rfl

/-- **The tokens of a text are those that reading passes, and its end.** -/
theorem lexText_iff {ts : List Token} :
    lexText text = .ok ts ↔ ∃ us k, ts = us ++ [eofAt k] ∧ Reaches (.ofText text) us ⟨k, []⟩ := by
  constructor
  · intro h
    exact reaches_of_tokensWithin (Nat.le_refl _) h
  · rintro ⟨us, k, rfl, hr⟩
    exact tokensWithin_of_reaches (Nat.le_refl _) hr

theorem reaches_of_tokensWithin_error {left : List Char} {e : LexError}
    (hl : r.rest.length ≤ left.length) (h : tokensWithin left r = .error e) :
    ∃ us r', Reaches r us r' ∧ r'.next = .error e := by
  induction left generalizing r with
  | nil =>
      rw [tokensWithin] at h
      split at h
      · rename_i hn
        cases h
        exact ⟨[], r, .here r, hn⟩
      · cases h
  | cons c left ih =>
      rw [tokensWithin] at h
      split at h
      · rename_i hn
        cases h
        exact ⟨[], r, .here r, hn⟩
      · rename_i t after hn
        split at h
        · cases h
        · rename_i hk
          have hlt := next_rest_lt hn hk
          simp only [List.length_cons] at hl
          split at h
          · rename_i hrest
            cases h
            obtain ⟨us, r', hr, hr'⟩ := ih (by omega) hrest
            exact ⟨t :: us, r', .step hn hk hr, hr'⟩
          · cases h

/-- **A fault is found behind the tokens that reading passes.** -/
theorem reaches_of_lexText_error {e : LexError} (h : lexText text = .error e) :
    ∃ us r, Reaches (.ofText text) us r ∧ r.next = .error e :=
  reaches_of_tokensWithin_error (Nat.le_refl _) h

/-- Every token of a text is read where a reader stands in it. -/
theorem standsIn_of_mem {ts : List Token} (h : lexText text = .ok ts) (ht : t ∈ ts) :
    ∃ r after : Reader, r.StandsIn text ∧ r.next = .ok (t, after) := by
  obtain ⟨us, k, rfl, hr⟩ := lexText_iff.mp h
  rcases List.mem_append.mp ht with ht | ht
  · obtain ⟨front, back, rfl⟩ := List.append_of_mem ht
    obtain ⟨r, after, hfront, hn, -, -⟩ := hr.split
    exact ⟨r, after, hfront.standsIn (standsIn_ofText text), hn⟩
  · obtain rfl := List.mem_singleton.mp ht
    exact ⟨⟨k, []⟩, ⟨k, []⟩, hr.standsIn (standsIn_ofText text), next_end k⟩

end Reader

/-! ## Sessions -/

/-- The characters behind a part of a text stand at the offset where its bytes end. -/
theorem fromOffset?_append (read rest : List Char) :
    fromOffset? (read.flatMap String.utf8EncodeChar).length (read ++ rest) = some rest := by
  induction read with
  | nil => rw [List.flatMap_nil, List.length_nil, List.nil_append, fromOffset?]
  | cons c read ih =>
      have hpos := c.utf8Size_pos
      rw [List.flatMap_cons, List.length_append, String.length_utf8EncodeChar, List.cons_append]
      obtain ⟨n, hn⟩ : ∃ n, c.utf8Size + (read.flatMap String.utf8EncodeChar).length = n + 1 :=
        ⟨_, (Nat.succ_pred_eq_of_pos (by omega)).symm⟩
      rw [hn, fromOffset?, if_pos (by omega)]
      have hrest : n + 1 - c.utf8Size = (read.flatMap String.utf8EncodeChar).length := by omega
      rw [hrest, ih]

namespace Session

/-- The session stands in its text where the reader does. -/
structure ReadsLike (s : Session) (r : Reader) : Prop where
  standsIn : r.StandsIn s.text
  cursor : s.cursor = r.cursor

variable {s : Session} {r : Reader}

theorem readsLike_ofText (text : List Char) : (ofText text).ReadsLike (.ofText text) :=
  ⟨Reader.standsIn_ofText text, rfl⟩

/-- A session reads what the reader reads. -/
theorem next_of_readsLike (h : s.ReadsLike r) :
    s.next =
      match r.next with
      | .error e => (some (.error e), s)
      | .ok (t, after) => (some (.ok t), { s with cursor := after.cursor }) := by
  obtain ⟨read, htext, hcursor⟩ := h.standsIn
  have hrest : fromOffset? s.cursor.offset s.text = some r.rest := by
    rw [h.cursor, hcursor, htext, Cursor.offset_start_advance, fromOffset?_append]
  have hreader : Reader.mk s.cursor r.rest = r := by rw [h.cursor]
  rw [next, tokenAt?, hrest]
  simp only [hreader]
  cases r.next with
  | error e => rfl
  | ok p => rfl

/-- What one reading step of a session finds in its text, and where the session stands behind it:
behind a token it stands where the token ends, and a fault moves nothing. -/
inductive Found (text : List Char) : Result × Session → Prop where
  | fault {r : Reader} {e : LexError} {s : Session} (hr : r.StandsIn text)
      (hn : r.next = .error e) (hc : s.cursor = r.cursor) : Found text (some (.error e), s)
  | token {r after : Reader} {t : Token} {s : Session} (hr : r.StandsIn text)
      (hn : r.next = .ok (t, after)) (hc : s.cursor = after.cursor) : Found text (some (.ok t), s)

/-- One reading step finds what a reader finds, and the session still stands where a reader does. -/
theorem found_next (h : s.ReadsLike r) :
    Found s.text s.next ∧ s.next.2.text = s.text ∧ ∃ r', s.next.2.ReadsLike r' := by
  rw [next_of_readsLike h]
  cases hn : r.next with
  | error e => exact ⟨.fault h.standsIn hn h.cursor, rfl, r, h⟩
  | ok p => exact ⟨.token h.standsIn hn rfl, rfl, p.2, h.standsIn.next hn, rfl⟩

theorem found_of_run_of_readsLike (h : s.ReadsLike r) (n : Nat) :
    ∀ p ∈ s.run (List.replicate n .next), Found s.text p := by
  induction n generalizing s r with
  | zero =>
      intro p hp
      cases hp
  | succ n ih =>
      intro p hp
      obtain ⟨hfound, htext, r', hr'⟩ := found_next h
      rw [List.replicate_succ, run] at hp
      rcases List.mem_cons.mp hp with rfl | hp
      · exact hfound
      · rw [← htext]
        exact ih hr' p hp

/-- **A session that reads on finds what a reader finds in its text**, however often it is asked. -/
theorem found_of_run (text : List Char) (n : Nat) :
    ∀ p ∈ (ofText text).run (List.replicate n .next), Found text p :=
  found_of_run_of_readsLike (readsLike_ofText text) n

end Session

end RSource
