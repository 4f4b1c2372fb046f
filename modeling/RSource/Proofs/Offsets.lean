import Mathlib.Data.List.Induction
import RSource.Proofs.Decoding
import RSource.Proofs.Standing

/-!
# Places of byte offsets

The place of a byte offset is counted in the bytes before it, and a cursor counts the characters
that it passes. Both come to the same wherever reading stands.

* `Location.lastLine_append`, `Location.lastLine_newline`, `Location.exists_lastLine` — the last
  line of a text is a text.
* `Location.ofBytes_append` — a character more in the bytes is a step of the place.
* `Reader.StandsIn.loc` — **a reader that stands in a text stands at the place of its offset**.
* `FaultAt` — the token that starts at an offset behind some blanks cannot be read.
* `ReadsAtPlaces`, `readsAtPlaces` — tokens, cursors and faults of a source stand at the places of
  their offsets.
* `places_agree` — **counting bytes and counting characters agree**, for any bytes.
-/

namespace RSource

namespace Location

/-! ## One more character -/

/-- Bytes that hold no line feed go on with the last line. -/
theorem lastLine_append {ys : List UInt8} (xs : List UInt8) (h : 10 ∉ ys) :
    lastLine (xs ++ ys) = lastLine xs ++ ys := by
  have hall : ∀ y ∈ ys.reverse, (y != 10) = true := by
    intro y hy
    rw [bne_iff_ne]
    rintro rfl
    exact h (List.mem_reverse.mp hy)
  rw [lastLine, List.reverse_append, List.takeWhile_append_of_pos hall, List.reverse_append,
    List.reverse_reverse, lastLine]

/-- Behind a line feed a line starts. -/
theorem lastLine_newline (xs : List UInt8) : lastLine (xs ++ [10]) = [] := by
  rw [lastLine, List.reverse_append]
  rfl

theorem encode_concat (cs : List Char) (c : Char) :
    (cs ++ [c]).flatMap String.utf8EncodeChar =
      cs.flatMap String.utf8EncodeChar ++ String.utf8EncodeChar c := by
  rw [List.flatMap_append, List.flatMap_singleton]

/-- The last line of a text is a text. -/
theorem exists_lastLine (cs : List Char) :
    ∃ line : List Char, lastLine (cs.flatMap String.utf8EncodeChar) =
      line.flatMap String.utf8EncodeChar := by
  induction cs using List.reverseRecOn with
  | nil => exact ⟨[], rfl⟩
  | append_singleton cs c ih =>
      obtain ⟨line, hline⟩ := ih
      rw [encode_concat]
      by_cases hc : c = '\n'
      · subst hc
        exact ⟨[], lastLine_newline _⟩
      · refine ⟨line ++ [c], ?_⟩
        rw [lastLine_append _ (Utf8.not_mem_encode hc), hline, encode_concat]

/-- A character more in the bytes is a step of the place behind them. -/
theorem ofBytes_append (cs : List Char) (c : Char) :
    ofBytes ((cs ++ [c]).flatMap String.utf8EncodeChar) =
      (ofBytes (cs.flatMap String.utf8EncodeChar)).step c := by
  obtain ⟨line, hline⟩ := exists_lastLine cs
  rw [ofBytes, ofBytes, Utf8.count_newline, Utf8.count_newline, List.count_append, encode_concat]
  by_cases hc : c = '\n'
  · subst hc
    have hcount : ['\n'].count '\n' = 1 := rfl
    have hlast : lastLine (cs.flatMap String.utf8EncodeChar ++ String.utf8EncodeChar '\n') = [] :=
      lastLine_newline _
    rw [hlast, hcount, step, if_pos rfl, UInt32.ofNat_add]
    rfl
  · have hcount : [c].count '\n' = 0 := List.count_eq_zero.mpr (by simpa using Ne.symm hc)
    rw [lastLine_append _ (Utf8.not_mem_encode hc), hline, ← encode_concat, Utf8.charCount_encode,
      Utf8.charCount_encode, hcount, Nat.add_zero, step, if_neg hc, List.length_append,
      List.length_singleton, UInt32.ofNat_add]
    rfl

/-- The place behind the bytes of a text is the one that the walk over its characters reaches. -/
theorem ofBytes_encode (cs : List Char) :
    ofBytes (cs.flatMap String.utf8EncodeChar) = start.advance cs := by
  induction cs using List.reverseRecOn with
  | nil => rfl
  | append_singleton cs c ih =>
      rw [ofBytes_append, ih, advance, advance, List.foldl_append]
      rfl

end Location

/-! ## Readers -/

/-- **A reader that stands in a text stands at the place of its offset.** -/
theorem Reader.StandsIn.loc {text : List Char} {r : Reader} (h : r.StandsIn text) :
    r.cursor.loc = .ofOffset (text.flatMap String.utf8EncodeChar) r.cursor.offset := by
  obtain ⟨read, rfl, hcursor⟩ := h
  rw [hcursor, Cursor.loc_advance, Cursor.offset_start_advance, Location.ofOffset,
    List.flatMap_append, List.take_left, Location.ofBytes_encode]
  rfl

/-- A token stands at the place of its offset. -/
theorem Reader.StandsIn.loc_token {text : List Char} {r after : Reader} {t : Token}
    (h : r.StandsIn text) (hn : r.next = .ok (t, after)) :
    t.loc = .ofOffset (text.flatMap String.utf8EncodeChar) t.offset :=
  (h.at_token hn).loc

/-- Behind byte `start` of the text come blanks, and the token that starts behind them, at byte
`offset`, cannot be read. -/
inductive FaultAt (text : List Char) (start offset : Nat) (fault : LexFault) : Prop where
  | mk (before gap : List Char) (first : Char) (behind : List Char)
      (htext : text = before ++ (gap ++ first :: behind))
      (hstart : start = (before.flatMap String.utf8EncodeChar).length)
      (hoffset : offset = ((before ++ gap).flatMap String.utf8EncodeChar).length)
      (hgap : ∀ c ∈ gap, isBlank c = true) (hfirst : isBlank first = false)
      (hscan : Lexeme.scan (first :: behind) = .error fault)

/-- A fault stands at the place of the first character that is at fault. -/
theorem Reader.StandsIn.fault {text : List Char} {r : Reader} {e : LexError} (h : r.StandsIn text)
    (hn : r.next = .error e) :
    ∃ o, FaultAt text r.cursor.offset o e.fault ∧
      e.loc = .ofOffset (text.flatMap String.utf8EncodeChar) o := by
  have hloc := h.skipBlanks.loc
  obtain ⟨before, htext, hcursor⟩ := h
  have hblank := Lexeme.blanks_append_afterBlanks r.rest
  have hfirst := List.head?_dropWhile_not isBlank r.rest
  simp only [Reader.next, Reader.read, Reader.skipBlanks] at hn hloc
  rw [← Lexeme.afterBlanks] at hfirst
  split at hn
  · rename_i fault hscan
    cases hn
    refine ⟨_, ?_, hloc⟩
    -- Only where a character is left can a token be at fault.
    cases hrest : Lexeme.afterBlanks r.rest with
    | nil =>
        rw [hrest] at hscan
        cases hscan
    | cons first behind =>
        rw [hrest] at hblank hscan hfirst
        refine ⟨before, Lexeme.blanks r.rest, first, behind, ?_, ?_, ?_,
          fun _ => List.mem_takeWhile_imp, by simpa using hfirst, hscan⟩
        · rw [hblank]
          exact htext
        · rw [hcursor, Cursor.offset_start_advance]
        · rw [hcursor, ← Cursor.advance_append, Cursor.offset_start_advance]
  · cases hn

/-! ## Sources -/

/-- What is read off a source stands at the places of its offsets. -/
structure ReadsAtPlaces (bytes : List UInt8) (text : List Char) : Prop where
  /-- Every token of the source stands at the place of its offset. -/
  token : ∀ ts, lex bytes = .ok ts → ∀ t ∈ ts, t.loc = .ofOffset bytes t.offset
  /-- If the source is refused, then at the place of the token behind those that are read. -/
  fault : ∀ e, lex bytes = .error e → ∃ us r o, Reader.Reaches (.ofText text) us r ∧
    FaultAt text r.cursor.offset o e.fault ∧ e.loc = .ofOffset bytes o
  /-- Where a session stands that reads on, it stands at the place of its offset. -/
  cursor : ∀ n, ∀ p ∈ (Session.ofText text).run (List.replicate n .next),
    p.2.cursor.loc = .ofOffset bytes p.2.cursor.offset
  /-- What such a session finds stands there as well: a token, or a fault at the first token
  behind the cursor. -/
  result : ∀ n, ∀ p ∈ (Session.ofText text).run (List.replicate n .next),
    (∃ t, p.1 = some (.ok t) ∧ t.loc = .ofOffset bytes t.offset) ∨
    ∃ e o, p.1 = some (.error e) ∧ FaultAt text p.2.cursor.offset o e.fault ∧
      e.loc = .ofOffset bytes o

theorem readsAtPlaces {bytes : List UInt8} {text : List Char}
    (h : decodeSource bytes = .ok text) : ReadsAtPlaces bytes text := by
  have hbytes := decodeSource_iff.mp h
  have hlex : lex bytes = lexText text := by rw [lex, h]
  have hstart := Reader.standsIn_ofText text
  refine ⟨?_, ?_, ?_, ?_⟩
  · intro ts hts t ht
    rw [hlex] at hts
    obtain ⟨r, after, hr, hn⟩ := Reader.standsIn_of_mem hts ht
    rw [hbytes]
    exact hr.loc_token hn
  · intro e he
    rw [hlex] at he
    obtain ⟨us, r, hreaches, hn⟩ := Reader.reaches_of_lexText_error he
    obtain ⟨o, hfault, hloc⟩ := (hreaches.standsIn hstart).fault hn
    rw [hbytes]
    exact ⟨us, r, o, hreaches, hfault, hloc⟩
  · intro n p hp
    rw [hbytes]
    cases Session.found_of_run text n p hp with
    | fault hr hn hc =>
        rw [hc]
        exact hr.loc
    | token hr hn hc =>
        rw [hc]
        exact (hr.next hn).loc
  · intro n p hp
    rw [hbytes]
    cases Session.found_of_run text n p hp with
    | @fault r e s hr hn hc =>
        obtain ⟨o, hfault, hloc⟩ := hr.fault hn
        rw [← hc] at hfault
        exact Or.inr ⟨e, o, rfl, hfault, hloc⟩
    | @token r after t s hr hn hc => exact Or.inl ⟨t, rfl, hr.loc_token hn⟩

/-- Bytes that are no text are refused at the place that the walk over their longest well-formed
part reaches. -/
theorem decodeSource_error {bytes : List UInt8}
    (h : ¬ ∃ text : List Char, bytes = text.flatMap String.utf8EncodeChar) :
    ∃ cs : List Char, cs.flatMap String.utf8EncodeChar <+: bytes ∧
      (∀ ds : List Char, ds.flatMap String.utf8EncodeChar <+: bytes →
        (ds.flatMap String.utf8EncodeChar).length ≤ (cs.flatMap String.utf8EncodeChar).length) ∧
      decodeSource bytes = .error ⟨.invalidUtf8, (Cursor.start.advance cs).loc⟩ := by
  rw [decodeSource]
  cases hdecode : Utf8.decode bytes with
  | ok text => exact absurd ⟨text, Utf8.encode_decode hdecode⟩ h
  | error n =>
      obtain ⟨cs, hcs, hle, hlongest⟩ := Utf8.longest_of_decode hdecode
      have hlength : (cs.flatMap String.utf8EncodeChar).length = n := by
        rw [← hcs, List.length_take, Nat.min_eq_left hle]
      refine ⟨cs, ?_, ?_, ?_⟩
      · rw [← hcs]
        exact List.take_prefix n bytes
      · intro ds hds
        rw [hlength]
        exact hlongest ds hds
      · simp only
        rw [Location.ofOffset, hcs, Location.ofBytes_encode, Cursor.loc_advance]
        rfl

/-- **Counting bytes and counting characters agree.** Every token of a text, every cursor that
reading on reaches and every fault stand at the place of their byte offset, and bytes that are no
text are refused at the place that the walk over their longest well-formed part reaches. -/
theorem places_agree (bytes : List UInt8) :
    (∀ text, decodeSource bytes = .ok text → ReadsAtPlaces bytes text) ∧
    ((¬ ∃ text : List Char, bytes = text.flatMap String.utf8EncodeChar) →
      ∃ cs : List Char, cs.flatMap String.utf8EncodeChar <+: bytes ∧
        (∀ ds : List Char, ds.flatMap String.utf8EncodeChar <+: bytes →
          (ds.flatMap String.utf8EncodeChar).length ≤ (cs.flatMap String.utf8EncodeChar).length) ∧
        decodeSource bytes = .error ⟨.invalidUtf8, (Cursor.start.advance cs).loc⟩) :=
  ⟨fun _ => readsAtPlaces, decodeSource_error⟩

/-- A string may span lines before a name that cannot be read, and a character may be cut off by the
end of the bytes. -/
theorem places_agree_of_cut_off :
    let source := "é\n'a\nb' _x".toUTF8.data.toList
    let bytes : List UInt8 := [0x61, 0x0A, 0xC3, 0xA9, 0xE2, 0x82]
    (decodeSource source = .ok "é\n'a\nb' _x".toList ∧
      ReadsAtPlaces source "é\n'a\nb' _x".toList) ∧
    (¬ ∃ text : List Char, bytes = text.flatMap String.utf8EncodeChar) ∧
      ∃ cs : List Char, cs.flatMap String.utf8EncodeChar <+: bytes ∧
        (∀ ds : List Char, ds.flatMap String.utf8EncodeChar <+: bytes →
          (ds.flatMap String.utf8EncodeChar).length ≤ (cs.flatMap String.utf8EncodeChar).length) ∧
        decodeSource bytes = .error ⟨.invalidUtf8, (Cursor.start.advance cs).loc⟩ := by
  intro source bytes
  have hsource : decodeSource source = .ok "é\n'a\nb' _x".toList := by decide +kernel
  have hbytes : ¬ ∃ text : List Char, bytes = text.flatMap String.utf8EncodeChar := by
    rintro ⟨text, htext⟩
    have hdecode : Utf8.decode bytes = .error 4 := by decide +kernel
    rw [htext, Utf8.decode_encode] at hdecode
    cases hdecode
  exact ⟨⟨hsource, (places_agree source).1 _ hsource⟩, hbytes, (places_agree bytes).2 hbytes⟩

end RSource
