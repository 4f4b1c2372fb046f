import RSource.Proofs.Encoding
import RSource.Proofs.Reaching
import RSource.Proofs.Render

/-!
# A text cut off by a line feed

A token ends before a line feed as it ends before what stands there now, so line feeds can be put
behind any token, and behind a whole text, without a change to the tokens before them.

* `Reader.next_again` — a token is read again where the text goes on as before up to what ends it.
* `Reader.Reaches.cut_off`, `Reader.Reaches.cut` — **the tokens up to some point are read again
  before the end of the text or a line feed**.
* `Reader.remaining_newlines` — line feeds are tokens of their own.
* `Reader.remaining_cut` — **what is left where a text is cut off by line feeds**.
* `Location.advance_line` — the line that is reached counts the line feeds.
* `Utf8.not_mem_encode`, `Utf8.count_newline` — a line feed is one byte, which no other character
  has.
-/

namespace RSource

/-! ## Tokens before a line feed -/

namespace Reader

/-- A token is read again where the text goes on as before up to what ends the token, and behind a
comment a line feed does. -/
theorem next_again {r after : Reader} {t : Token} {v post z : List Char}
    (h : r.next = .ok (t, after)) (hk : t.kind ≠ .eof) (hv : after.rest = v ++ post)
    (hz : Lexeme.Boundary z) (hc : t.kind = .comment → ∀ c ∈ z.head?, c = '\n') :
    ∃ w, w ≠ [] ∧ r.rest = w ++ after.rest ∧ after.cursor = r.cursor.advance w ∧
      next ⟨r.cursor, w ++ (v ++ z)⟩ = .ok (t, ⟨after.cursor, v ++ z⟩) := by
  obtain ⟨l, hl, rfl, rfl⟩ := next_ok h
  have hscan := Lexeme.scan_again (Lexeme.reading_of_scan hl) hv hz hc hk
  have hvisible := (Lexeme.spells_of_scan hl).visible_append hk (v ++ z)
  have hblank : ∀ c ∈ Lexeme.blanks r.rest, isBlank c = true := fun _ => List.mem_takeWhile_imp
  refine ⟨Lexeme.blanks r.rest ++ l.text, ?_, ?_, ?_, ?_⟩
  · exact List.append_ne_nil_of_right_ne_nil _ (Lexeme.scan_text_ne_nil hl hk)
  · rw [List.append_assoc, Lexeme.scan_split hl, Lexeme.blanks_append_afterBlanks]
  · rw [Cursor.advance_append]
    rfl
  · exact next_of_scan (List.append_assoc ..) hblank hvisible hscan

/-- The tokens up to some point are read again before a line feed or the end of the text. -/
theorem Reaches.cut_off {r r' : Reader} {ts : List Token} (h : Reaches r ts r') {z : List Char}
    (hz : ∀ c ∈ z.head?, c = '\n') :
    ∃ read, r.rest = read ++ r'.rest ∧ r'.cursor = r.cursor.advance read ∧
      Reaches ⟨r.cursor, read ++ z⟩ ts ⟨r'.cursor, z⟩ := by
  have hgap : Lexeme.Gap z := fun c hc => Or.inr (hz c hc)
  induction h with
  | here r => exact ⟨[], rfl, rfl, .here _⟩
  | blanks r =>
      refine ⟨Lexeme.blanks r.rest, (Lexeme.blanks_append_afterBlanks _).symm, rfl, ?_⟩
      have hrun := Lexeme.run_append (p := isBlank) r.rest (r := z)
        fun c hc => by cases hz c hc; rfl
      have hskip : (⟨r.cursor, Lexeme.blanks r.rest ++ z⟩ : Reader).skipBlanks =
          ⟨r.skipBlanks.cursor, z⟩ := by
        simp only [skipBlanks, Lexeme.blanks, Lexeme.afterBlanks, hrun.1, hrun.2]
      exact hskip ▸ .blanks _
  | step h hk hr ih =>
      obtain ⟨read, hread, hcursor, hreaches⟩ := ih
      obtain ⟨w, -, hw, hcursor', hnext⟩ := next_again h hk hread hgap.boundary fun _ => hz
      refine ⟨w ++ read, ?_, ?_, ?_⟩
      · rw [hw, hread, List.append_assoc]
      · rw [hcursor, hcursor', Cursor.advance_append]
      · rw [List.append_assoc]
        exact .step hnext hk hreaches

/-- **The tokens up to some point are read again before a line feed.** -/
theorem Reaches.cut {r r' : Reader} {ts : List Token} (h : Reaches r ts r') (z : List Char) :
    ∃ read, r.rest = read ++ r'.rest ∧ r'.cursor = r.cursor.advance read ∧
      Reaches ⟨r.cursor, read ++ '\n' :: z⟩ ts ⟨r'.cursor, '\n' :: z⟩ :=
  h.cut_off fun c hc => by cases hc; rfl

/-- Line feeds are tokens of their own. -/
theorem remaining_newlines (k : Cursor) (n : Nat) (cs : List Char) :
    ∃ lines, (∀ l ∈ lines, l.kind = .newline) ∧ lines.length = n ∧
      remaining ⟨k, List.replicate n '\n' ++ cs⟩ =
        (lines ++ (remaining ⟨k.advance (List.replicate n '\n'), cs⟩).1,
          (remaining ⟨k.advance (List.replicate n '\n'), cs⟩).2) := by
  induction n generalizing k with
  | zero => exact ⟨[], by simp, rfl, rfl⟩
  | succ n ih =>
      obtain ⟨lines, hlines, hlength, hrem⟩ := ih (k.step '\n')
      have hn : next ⟨k, List.replicate (n + 1) '\n' ++ cs⟩ =
          .ok (⟨.newline, "\n", k.loc, k.offset⟩,
            ⟨k.step '\n', List.replicate n '\n' ++ cs⟩) := rfl
      refine ⟨⟨.newline, "\n", k.loc, k.offset⟩ :: lines, ?_, by simp [hlength], ?_⟩
      · intro l hl
        rcases List.mem_cons.mp hl with rfl | hl
        · rfl
        · exact hlines l hl
      · rw [remaining_ok hn, if_neg (by simp), if_neg (by simp), hrem]
        rfl

/-- **What is left where a text is cut off by line feeds**: the tokens before them, the line feeds,
and what is read behind them. -/
theorem remaining_cut {text : List Char} {ts : List Token} {after : Reader}
    (h : Reaches (.ofText text) ts after) (n : Nat) (cs : List Char) :
    ∃ read lines, text = read ++ after.rest ∧ after.cursor = Cursor.start.advance read ∧
      (∀ l ∈ lines, l.kind = .newline) ∧ lines.length = n + 1 ∧
      (ofText (read ++ (List.replicate (n + 1) '\n' ++ cs))).remaining =
        (withoutComments ts ++
            (lines ++ (remaining ⟨after.cursor.advance (List.replicate (n + 1) '\n'), cs⟩).1),
          (remaining ⟨after.cursor.advance (List.replicate (n + 1) '\n'), cs⟩).2) := by
  obtain ⟨read, hread, hcursor, hcut⟩ := h.cut (List.replicate n '\n' ++ cs)
  obtain ⟨lines, hlines, hlength, hbreaks⟩ := remaining_newlines after.cursor (n + 1) cs
  refine ⟨read, lines, hread, hcursor, hlines, hlength, ?_⟩
  have hall := remaining_of_reaches hcut
  rw [show '\n' :: (List.replicate n '\n' ++ cs) = List.replicate (n + 1) '\n' ++ cs from rfl,
    hbreaks] at hall
  exact hall

end Reader

/-! ## Lines -/

/-- The line that is reached counts the line feeds. -/
theorem Location.advance_line (l : Location) (cs : List Char) :
    (l.advance cs).line = l.line + UInt32.ofNat (cs.count '\n') := by
  induction cs generalizing l with
  | nil => simp [advance]
  | cons c cs ih =>
      have hadvance : l.advance (c :: cs) = (l.step c).advance cs := rfl
      rw [hadvance, ih, List.count_cons]
      by_cases hc : c = '\n'
      · subst hc
        simp only [step, if_true, beq_self_eq_true, UInt32.ofNat_add]
        rw [UInt32.add_assoc, UInt32.add_comm 1]
        rfl
      · simp [step, hc]

/-! ## Bytes -/

theorem Utf8.utf8ByteSize_eq (s : String) :
    s.utf8ByteSize = (s.toList.flatMap String.utf8EncodeChar).length := by
  obtain ⟨cs, rfl⟩ : ∃ cs, s = String.ofList cs := ⟨s.toList, String.ofList_toList.symm⟩
  rw [← String.size_toByteArray, String.toList_ofList, String.toByteArray_ofList, List.utf8Encode,
    List.size_toByteArray]

/-- A source is the bytes of its characters. -/
theorem decodeSource_iff {bytes : List UInt8} {text : List Char} :
    decodeSource bytes = .ok text ↔ bytes = text.flatMap String.utf8EncodeChar := by
  rw [decodeSource]
  constructor
  · intro h
    split at h
    · rename_i hdecode
      cases h
      exact Utf8.encode_decode hdecode
    · cases h
  · rintro rfl
    rw [Utf8.decode_encode]

theorem Utf8.encode_newlines (n : Nat) :
    (List.replicate n '\n').flatMap String.utf8EncodeChar = List.replicate n 10 := by
  induction n with
  | zero => rfl
  | succ n ih =>
      rw [List.replicate_succ, List.flatMap_cons, ih]
      rfl

/-- No other character has the byte of a line feed. -/
theorem Utf8.not_mem_encode {c : Char} (hc : c ≠ '\n') : 10 ∉ String.utf8EncodeChar c := by
  have hval : c.val.toNat ≠ 10 := fun h => hc (Char.ext (UInt32.toNat_inj.mp h))
  have hbyte (m : Nat) (h : (10 : UInt8) = UInt8.ofNat m) : 10 = m % 256 := by
    rw [← UInt8.toNat_inj, UInt8.toNat_ofNat'] at h
    exact h
  unfold String.utf8EncodeChar
  generalize c.val.toNat = v at hval
  simp only
  -- One case for each number of bytes.
  split
  · simp only [List.mem_cons, List.not_mem_nil, or_false]
    exact fun h => absurd (hbyte _ h) (by omega)
  · split
    · simp only [List.mem_cons, List.not_mem_nil, or_false]
      rintro (h | h) <;> exact absurd (hbyte _ h) (by omega)
    · split <;> simp only [List.mem_cons, List.not_mem_nil, or_false]
      · rintro (h | h | h) <;> exact absurd (hbyte _ h) (by omega)
      · rintro (h | h | h | h) <;> exact absurd (hbyte _ h) (by omega)

/-- So many bytes are line feeds as characters are. -/
theorem Utf8.count_newline (cs : List Char) :
    (cs.flatMap String.utf8EncodeChar).count 10 = cs.count '\n' := by
  induction cs with
  | nil => rfl
  | cons c cs ih =>
      rw [List.flatMap_cons, List.count_append, ih, List.count_cons, Nat.add_comm]
      by_cases hc : c = '\n'
      · subst hc
        rfl
      · rw [List.count_eq_zero.mpr (not_mem_encode hc), if_neg (by simpa using hc)]

end RSource
