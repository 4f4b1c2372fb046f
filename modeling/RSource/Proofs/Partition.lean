import RSource.Proofs.Standing

/-!
# Tokens partition their source

* `Laid` — blanks and the lexemes of some tokens make up a text, in turn.
* `Laid.offset_ge`, `Laid.stop_le`, `Laid.ascending` — tokens laid out over a text stand between its
  ends, each behind the one before it.
* `Reader.Reaches.laid`, `Reader.Reaches.laid_text` — the tokens that reading passes are laid out
  over what is read.
* `Reader.Reaches.offset_eof`, `Reader.Reaches.ascending` — the tokens of a text stand one behind
  the other, and its end behind its last byte.
* `Partitions` — some tokens and the end of the input partition a source.
* `partitions_of_lex` — **the tokens of a source partition it**: blanks stand between them and
  nothing else.
-/

namespace RSource

/-- Blanks and the lexemes of some tokens make up a text that starts at the byte offset `start`, in
turn. A blank is white space other than a line feed. -/
inductive Laid : Nat → List Char → List Token → Prop where
  | done {start : Nat} {gap : List Char} (hgap : ∀ c ∈ gap, isWhiteSpace c = true ∧ c ≠ '\n') :
      Laid start gap []
  | token {start : Nat} {gap rest : List Char} {t : Token} {ts : List Token}
      (hgap : ∀ c ∈ gap, isWhiteSpace c = true ∧ c ≠ '\n')
      (hoffset : t.offset = start + (gap.flatMap String.utf8EncodeChar).length)
      (h : Laid t.stop rest ts) : Laid start (gap ++ (t.lexeme.toList ++ rest)) (t :: ts)

theorem isBlank_iff {c : Char} : isBlank c = true ↔ isWhiteSpace c = true ∧ c ≠ '\n' := by
  rw [isBlank, Bool.and_eq_true, bne_iff_ne, And.comm]

theorem whiteSpace_blanks (cs : List Char) :
    ∀ c ∈ Lexeme.blanks cs, isWhiteSpace c = true ∧ c ≠ '\n' :=
  fun _ hc => isBlank_iff.mp (List.mem_takeWhile_imp hc)

namespace Laid

variable {start : Nat} {text : List Char} {ts : List Token}

/-- No token starts before the text does. -/
theorem offset_ge (h : Laid start text ts) : ∀ t ∈ ts, start ≤ t.offset := by
  induction h with
  | done => simp
  | @token start gap rest t ts hgap hoffset h ih =>
      intro u hu
      rcases List.mem_cons.mp hu with rfl | hu
      · omega
      · have hle := ih u hu
        have hstop : t.offset ≤ t.stop := Nat.le_add_right _ _
        omega

/-- No token goes on behind the text. -/
theorem stop_le (h : Laid start text ts) :
    ∀ t ∈ ts, t.stop ≤ start + (text.flatMap String.utf8EncodeChar).length := by
  induction h with
  | done => simp
  | @token start gap rest t ts hgap hoffset h ih =>
      have hlength : ((gap ++ (t.lexeme.toList ++ rest)).flatMap String.utf8EncodeChar).length =
          (gap.flatMap String.utf8EncodeChar).length + (t.bytes.length +
            (rest.flatMap String.utf8EncodeChar).length) := by
        rw [List.flatMap_append, List.flatMap_append, List.length_append, List.length_append]
        rfl
      have hstop : t.stop = t.offset + t.bytes.length := rfl
      intro u hu
      rcases List.mem_cons.mp hu with rfl | hu
      · omega
      · have hle := ih u hu
        omega

/-- Each token starts where the one before it stops, or later. -/
theorem ascending (h : Laid start text ts) : ts.Pairwise (fun t u => t.stop ≤ u.offset) := by
  induction h with
  | done => exact .nil
  | token hgap hoffset h ih => exact List.pairwise_cons.mpr ⟨h.offset_ge, ih⟩

end Laid

/-- The tokens that reading passes are laid out over what is read. -/
theorem Reader.Reaches.laid {r r' : Reader} {ts : List Token} (h : Reaches r ts r') :
    ∃ read, r.rest = read ++ r'.rest ∧ Laid r.cursor.offset read ts := by
  induction h with
  | here r => exact ⟨[], rfl, .done (by simp)⟩
  | blanks r =>
      exact ⟨Lexeme.blanks r.rest, (Lexeme.blanks_append_afterBlanks _).symm,
        .done (whiteSpace_blanks _)⟩
  | @step r after r' t ts hn hk hreaches ih =>
      obtain ⟨read, hread, hlaid⟩ := ih
      obtain ⟨hrest, hcursor, -⟩ := next_split hn
      have hoffset : t.offset = r.cursor.offset +
          ((Lexeme.blanks r.rest).flatMap String.utf8EncodeChar).length := by
        rw [← Cursor.offset_advance, ← hcursor]
        rfl
      rw [← stop_of_next hn] at hlaid
      refine ⟨Lexeme.blanks r.rest ++ (t.lexeme.toList ++ read), ?_,
        .token (whiteSpace_blanks _) hoffset hlaid⟩
      rw [List.append_assoc, List.append_assoc, ← hread]
      exact hrest

/-- The tokens of a text are laid out over it. -/
theorem Reader.Reaches.laid_text {text : List Char} {k : Cursor} {ts : List Token}
    (h : Reaches (.ofText text) ts ⟨k, []⟩) : Laid 0 text ts := by
  obtain ⟨read, hread, hlaid⟩ := h.laid
  have htext : text = read := hread.trans (List.append_nil read)
  rw [htext]
  exact hlaid

/-- Reading passes no token without a character, and not the end of the input. -/
theorem Reader.Reaches.lexeme_ne {r r' : Reader} {ts : List Token} (h : Reaches r ts r') :
    ∀ t ∈ ts, t.kind ≠ .eof ∧ t.bytes ≠ [] := by
  induction h with
  | here | blanks => simp
  | @step r after r' t ts hn hk hreaches ih =>
      intro u hu
      rcases List.mem_cons.mp hu with rfl | hu
      · refine ⟨hk, fun hnil => ?_⟩
        have hlt := next_offset_lt hn hk
        have hoffset := (next_offset hn).2
        rw [show u.lexeme.toList.flatMap String.utf8EncodeChar = [] from hnil] at hoffset
        simp only [List.length_nil] at hoffset
        omega
      · exact ih u hu

/-- The end of the input stands behind the last byte. -/
theorem Reader.Reaches.offset_eof {text : List Char} {k : Cursor} {ts : List Token}
    (h : Reaches (.ofText text) ts ⟨k, []⟩) :
    (eofAt k).offset = (text.flatMap String.utf8EncodeChar).length := by
  obtain ⟨read, hread, hcursor⟩ := h.standsIn (standsIn_ofText text)
  have hk : k = Cursor.start.advance text := by
    rw [hread, List.append_nil]
    exact hcursor
  rw [eofAt, hk, Cursor.offset_start_advance]

/-- Each token of a text starts behind the one before it, and the end of the input behind all. -/
theorem Reader.Reaches.ascending {text : List Char} {k : Cursor} {ts : List Token}
    (h : Reaches (.ofText text) ts ⟨k, []⟩) :
    (ts ++ [eofAt k]).Pairwise (fun t u => t.offset < u.offset ∧ t.stop ≤ u.offset) := by
  have hlt : ∀ t ∈ ts, t.offset < t.stop := by
    intro t ht
    have hpos := List.length_pos_iff.mpr (h.lexeme_ne t ht).2
    have hstop : t.stop = t.offset + t.bytes.length := rfl
    omega
  refine List.pairwise_append.mpr ⟨?_, List.pairwise_singleton _ _, ?_⟩
  · refine h.laid_text.ascending.imp_of_mem fun ht _ hle => ⟨?_, hle⟩
    have := hlt _ ht
    omega
  · intro t ht u hu
    obtain rfl := List.mem_singleton.mp hu
    have hle := h.laid_text.stop_le t ht
    rw [Nat.zero_add, ← h.offset_eof] at hle
    have := hlt t ht
    exact ⟨by omega, hle⟩

/-- Some tokens and the end of the input partition a source. -/
structure Partitions (bytes : List UInt8) (text : List Char) (ts : List Token) (eof : Token) :
    Prop where
  /-- The last token, and no other, is the end of the input. -/
  eof_kind : eof.kind = .eof
  ne_eof : ∀ t ∈ ts, t.kind ≠ .eof
  /-- The end of the input is empty and stands behind the last byte. -/
  eof_lexeme : eof.lexeme = ""
  eof_offset : eof.offset = bytes.length
  /-- Every other token is the slice of the source at its offset, and not empty. -/
  lexeme_ne : ∀ t ∈ ts, t.lexeme ≠ ""
  slice : ∀ t ∈ ts, (bytes.drop t.offset).take t.bytes.length = t.bytes
  /-- Offsets grow up to the end of the input, and no two tokens overlap. -/
  ascending : (ts ++ [eof]).Pairwise (fun t u => t.offset < u.offset ∧ t.stop ≤ u.offset)
  /-- All else is white space other than line feeds. -/
  laid : Laid 0 text ts

/-- The tokens of a text and its end partition it. -/
theorem Reader.Reaches.partitions {text : List Char} {k : Cursor} {ts : List Token}
    (h : Reaches (.ofText text) ts ⟨k, []⟩) :
    Partitions (text.flatMap String.utf8EncodeChar) text ts (eofAt k) := by
  refine ⟨rfl, ?_, rfl, h.offset_eof, ?_, ?_, h.ascending, h.laid_text⟩
  · intro t ht
    exact (h.lexeme_ne t ht).1
  · intro t ht hnil
    apply (h.lexeme_ne t ht).2
    rw [Token.bytes, hnil]
    rfl
  · intro t ht
    have hlex : lexText text = .ok (ts ++ [eofAt k]) := lexText_iff.mpr ⟨ts, k, rfl, h⟩
    obtain ⟨r, after, hr, hn⟩ := standsIn_of_mem hlex (List.mem_append_left _ ht)
    exact (List.prefix_iff_eq_take.mp (hr.starts hn)).symm

/-- **The tokens of a source partition it.** The last of them is the end of the input, all others
are slices of the source, each behind the one before it, and between them, before the first and
behind the last stands nothing but white space other than line feeds. -/
theorem partitions_of_lex {bytes : List UInt8} {ts : List Token} (h : lex bytes = .ok ts) :
    ∃ text us eof, decodeSource bytes = .ok text ∧ ts = us ++ [eof] ∧
      Partitions bytes text us eof := by
  obtain ⟨text, us, k, htext, hts, hr⟩ := Reader.reaches_of_lex h
  refine ⟨text, us, Reader.eofAt k, htext, hts, ?_⟩
  rw [decodeSource_iff.mp htext]
  exact hr.partitions

/-- A string may span lines and characters of several bytes; a form feed is a blank, and a line feed
is a token. -/
theorem partitions_of_lex_of_string :
    let source := "\x0c x<-'é\n' # y\n ".toUTF8.data.toList
    let ts : List Token := [⟨.ident, "x", ⟨1, 3⟩, 2⟩, ⟨.leftAssign, "<-", ⟨1, 4⟩, 3⟩,
      ⟨.str, "'é\n'", ⟨1, 6⟩, 5⟩, ⟨.comment, "# y", ⟨2, 3⟩, 11⟩, ⟨.newline, "\n", ⟨2, 6⟩, 14⟩,
      ⟨.eof, "", ⟨3, 2⟩, 16⟩]
    lex source = .ok ts ∧ ∃ text us eof, decodeSource source = .ok text ∧ ts = us ++ [eof] ∧
      Partitions source text us eof := by
  intro source ts
  have hlex : lex source = .ok ts := by decide +kernel
  exact ⟨hlex, partitions_of_lex hlex⟩

end RSource
