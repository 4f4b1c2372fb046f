import RSource.Proofs.Balance
import RSource.Proofs.Cutting

/-!
# Line breaks inside expressions

Behind an operator, behind what announces a body or a statement, and in brackets that ignore line
feeds, the expression goes on in the next line.

* `breakBehind` — line feeds put behind a token.
* `reflows_of_breaks` — the tokens of the one source are those of the other, with line feeds added.
* `parse_of_line_breaks` — **line breaks inside an unfinished expression do not matter**.
-/

namespace RSource

/-! ## Line feeds behind a token -/

theorem Scope.run_withoutComments (c : Scope) (ts : List Token) :
    c.run ((withoutComments ts).map (·.kind)) = c.run (ts.map (·.kind)) := by
  rw [← run_filter c (ts.map (·.kind)), List.filter_map]
  rfl

/-- The token behind which line feeds come: the last one that is no comment. If it is the first of
two that close an element subscript, a comment stands behind it. -/
theorem exists_last {r r₁ after : Reader} {ts : List Token} {t : Token}
    (h : Reader.Reaches r ts r₁) (hn : r₁.next = .ok (t, after)) (hk : t.kind ≠ .eof)
    (hb : (Scope.start.run (ts.map (·.kind))).breaks t.kind = true) :
    ∃ front x, withoutComments (ts ++ [t]) = front ++ [x] ∧
      ((Scope.start.run (front.map (·.kind))).joins x.kind = true ∨
        ((Scope.start.run (front.map (·.kind))).step x.kind).isFree = true) ∧
      ((Scope.start.run (front.map (·.kind))).closesElement x.kind = true →
        x.offset + 1 < after.cursor.offset) := by
  have hsplit : withoutComments (ts ++ [t]) = withoutComments ts ++ withoutComments [t] :=
    List.filter_append ..
  rw [← Scope.run_withoutComments] at hb
  by_cases hc : t.kind = .comment
  · -- The scope is that of the token before the comments.
    have hnil : withoutComments [t] = [] := by simp [withoutComments, hc]
    rw [hsplit, hnil, List.append_nil]
    rw [hc] at hb
    have hfree : (Scope.start.run ((withoutComments ts).map (·.kind))).isFree = true := by
      simpa [Scope.breaks, Scope.joins, Scope.step, Scope.closesElement, Power.ofKind?,
        UnaryOp.ofKind?] using hb
    rcases List.eq_nil_or_concat (withoutComments ts) with hts | ⟨front, x, hts⟩
    · rw [hts] at hfree
      cases hfree
    · rw [hts, List.concat_eq_append] at hfree ⊢
      have hx : x ∈ ts := by
        have hmem : x ∈ withoutComments ts := by rw [hts]; simp
        exact (List.mem_filter.mp hmem).1
      have hlt := h.offsets.2.1 x hx
      have hle := (Reader.next_offset hn).1
      have hlt' := Reader.next_offset_lt hn hk
      refine ⟨front, x, rfl, Or.inr ?_, fun _ => by omega⟩
      rwa [List.map_append, Scope.run_append] at hfree
  · have hone : withoutComments [t] = [t] := by simp [withoutComments, hc]
    rw [hsplit, hone]
    refine ⟨withoutComments ts, t, rfl, ?_⟩
    simp only [Scope.breaks, Bool.or_eq_true, Bool.and_eq_true, Bool.not_eq_true'] at hb
    rcases hb with hjoins | ⟨hfree, hclose⟩
    · refine ⟨Or.inl hjoins, fun hclose => ?_⟩
      have hk := Scope.kind_of_closesElement hclose
      simp [hk, Scope.joins, Power.ofKind?, UnaryOp.ofKind?] at hjoins
    · exact ⟨Or.inr hfree, fun hclose' => by rw [hclose] at hclose'; cases hclose'⟩

/-- The tokens of the one source are those of the other, with line feeds added. -/
theorem reflows_of_breaks {P : Pairing} (hsame : P.left = P.right) {front lines ts us : List Token}
    {x : Token} (hl : ∀ l ∈ lines, l.kind = .newline)
    (hb : (Scope.start.run (front.map (·.kind))).joins x.kind = true ∨
      ((Scope.start.run (front.map (·.kind))).step x.kind).isFree = true)
    (hadj : (Scope.start.run (front.map (·.kind))).closesElement x.kind = true →
      (Adjoins x ts ↔ Adjoins x (lines ++ us)))
    (h : P.Reflows ((Scope.start.run (front.map (·.kind))).step x.kind) ts us)
    (ha : Ascending (front ++ x :: ts)) (ha' : Ascending (front ++ x :: (lines ++ us))) :
    P.Reflows .start (front ++ x :: ts) (front ++ x :: (lines ++ us)) := by
  have hstep := Pairing.Reflows.step (P := P) ⟨rfl, rfl, by rw [hsame]⟩ hadj hl (Or.inr hb) h
  refine .prepend hsame hstep (fun t ht ht' => ?_) ha ha'
  have hleft : Ascending (t :: ([x] ++ ts)) := ht
  have hright : Ascending (t :: ([x] ++ (lines ++ us))) := ht'
  exact adjoins_append_iff hleft hright (by simp)

/-- A text with line feeds behind a token comes to the same as without them. -/
theorem outcome_of_breaks {text : List Char} {ts : List Token} {t : Token} {r₁ after : Reader}
    (h : Reader.Reaches (.ofText text) ts r₁) (hn : r₁.next = .ok (t, after)) (hk : t.kind ≠ .eof)
    (hb : (Scope.start.run (ts.map (·.kind))).breaks t.kind = true) (n : Nat) :
    ∃ read, text = read ++ after.rest ∧ after.cursor = Cursor.start.advance read ∧
      relocateOutcome Location.toStart (parseText text) =
        relocateOutcome Location.toStart
          (parseText (read ++ (List.replicate (n + 1) '\n' ++ after.rest))) := by
  have hto : Reader.Reaches (.ofText text) (ts ++ [t]) after :=
    h.trans (.step hn hk (.here after)) (by simp)
  obtain ⟨read, lines, hread, hcursor, hlines, hlength, hright⟩ :=
    Reader.remaining_cut hto n after.rest
  refine ⟨read, hread, hcursor, ?_⟩
  generalize hr' : (⟨after.cursor.advance (List.replicate (n + 1) '\n'), after.rest⟩ : Reader) = r'
    at hright
  obtain ⟨front, x, hfront, hx, hgap⟩ := exists_last h hn hk hb
  have hleft := Reader.remaining_of_reaches hto
  rw [hfront, List.append_assoc, List.singleton_append] at hleft hright
  have ha := (Reader.ofText text).remaining_offsets.2
  have ha' := Reader.remaining_offsets
    (.ofText (read ++ (List.replicate (n + 1) '\n' ++ after.rest))) |>.2
  rw [hleft] at ha
  rw [hright] at ha'
  -- Behind the line feeds the text is read from another place.
  have hrest : r'.rest = after.rest := by rw [← hr']
  have hoff : r'.cursor.offset = after.cursor.offset + (n + 1) := by
    simp only [← hr', Cursor.offset_advance, Utf8.encode_newlines, List.length_replicate]
  obtain ⟨hshift, hend⟩ := Reader.remaining_shift (f := Location.toStart) (g := Location.toStart)
    (fun _ _ _ _ => rfl) hrest hoff rfl
  let P := Pairing.between _ _ _ _ hend
  have hadj : (Scope.start.run (front.map (·.kind))).closesElement x.kind = true →
      (Adjoins x after.remaining.1 ↔ Adjoins x (lines ++ r'.remaining.1)) := by
    intro hclose
    have hoffset := hgap hclose
    refine iff_of_false ?_ ?_
    · -- A comment stands between the bracket and what follows it.
      rintro ⟨u, us, hdrop, -, hu⟩
      have hmem : u ∈ after.remaining.1 :=
        (List.dropWhile_suffix _).mem (hdrop ▸ List.mem_cons_self ..)
      have := after.remaining_offsets.1 u hmem
      omega
    · cases lines with
      | nil => simp at hlength
      | cons l lines =>
          exact not_adjoins_of_ascending (List.pairwise_append.mp ha').2.1
            (hlines l (List.mem_cons_self ..))
  have hreflows := reflows_of_breaks (P := P) rfl hlines hx hadj
    (reflows_of_shifted (P := P) hshift (fun _ => rfl) _) ha ha'
  exact outcome_of_reflows (P := P) id (by rwa [hleft, hright]) (by rw [hleft]; rfl)
    (by rw [hright]; rfl)

/-- What comes to the same as an accepted source, places apart, is accepted. -/
theorem accepted_of_outcome {p : Program} {x : Except Error Program}
    (h : relocateOutcome Location.toStart x = relocateOutcome Location.toStart (.ok p)) :
    ∃ q, x = .ok q ∧ q.erase = p.erase := by
  cases x with
  | error e => cases h
  | ok q =>
      simp only [relocateOutcome, Program.relocate_toStart, Except.ok.injEq] at h
      exact ⟨q, rfl, h⟩

/-- So many line feeds put behind a token. -/
def breakBehind (bytes : List UInt8) (t : Token) (n : Nat) : List UInt8 :=
  bytes.take (t.offset + t.lexeme.utf8ByteSize) ++ List.replicate n 10 ++
    bytes.drop (t.offset + t.lexeme.utf8ByteSize)

/-- **Line breaks inside an unfinished expression do not matter**: put behind an operator, a token
that announces a body or a statement, or any token in brackets that ignore line feeds, they leave
the tree of an accepted source as it is, places apart. -/
theorem parse_of_line_breaks {bytes : List UInt8} {ts us : List Token} {t : Token} {p : Program}
    (h : parse bytes = .ok p) (hlex : lex bytes = .ok (ts ++ t :: us))
    (hb : (Scope.start.run (ts.map (·.kind))).breaks t.kind = true) (n : Nat) :
    ∃ q, parse (breakBehind bytes t n) = .ok q ∧ q.erase = p.erase := by
  obtain ⟨text, all, k, htext, hall, hr⟩ := Reader.reaches_of_lex hlex
  have hparse : parseText text = .ok p := by rwa [parse, htext] at h
  have hbytes := decodeSource_iff.mp htext
  cases n with
  | zero =>
      refine ⟨p, ?_, rfl⟩
      rwa [breakBehind, List.replicate_zero, List.append_nil, List.take_append_drop]
  | succ n =>
      rcases List.eq_nil_or_concat us with rfl | ⟨us, x, rfl⟩
      · -- At the end of the input no brackets are open.
        obtain ⟨rfl, heof⟩ := List.append_inj' hall rfl
        cases heof
        have hrun := run_of_parseFeed hparse
        rw [Reader.remaining_of_reaches_end hr, Scope.run_withoutComments] at hrun
        rw [hrun] at hb
        cases hb
      · rw [List.concat_eq_append, ← List.cons_append, ← List.append_assoc] at hall
        obtain ⟨rfl, -⟩ := List.append_inj' hall rfl
        obtain ⟨r₁, after, h₁, hn, hk, -⟩ := hr.split
        obtain ⟨read, hread, hcursor, houtcome⟩ := outcome_of_breaks h₁ hn hk hb n
        have hcut : t.offset + t.lexeme.utf8ByteSize =
            (read.flatMap String.utf8EncodeChar).length := by
          rw [Utf8.utf8ByteSize_eq, ← (Reader.next_offset hn).2, hcursor, Cursor.offset_advance]
          exact Nat.zero_add _
        have hdecode : decodeSource (breakBehind bytes t (n + 1)) =
            .ok (read ++ (List.replicate (n + 1) '\n' ++ after.rest)) := by
          rw [decodeSource_iff, breakBehind, hcut, hbytes, hread, List.flatMap_append,
            List.take_left, List.drop_left, List.flatMap_append, List.flatMap_append,
            Utf8.encode_newlines, List.append_assoc]
        rw [hparse] at houtcome
        rw [parse, hdecode]
        exact accepted_of_outcome houtcome.symm

/-- The branch of a condition may stand lines below its header. -/
theorem parse_of_line_breaks_of_header :
    let p : Program := ⟨[.term ⟨1, 1⟩ (.mk (.ifThen ⟨1, 1⟩
      (.term ⟨1, 5⟩ (.mk (.identifier ⟨⟨1, 5⟩, "a", false⟩) []))
      (.term ⟨1, 8⟩ (.mk (.identifier ⟨⟨1, 8⟩, "b", false⟩) []))) [])]⟩
    parse "if (a) b".toUTF8.data.toList = .ok p ∧
      ∃ q, parse "if (a)\n\n b".toUTF8.data.toList = .ok q ∧ q.erase = p.erase := by
  intro p
  have hparse : parse "if (a) b".toUTF8.data.toList = .ok p := by rfl
  have hlex : lex "if (a) b".toUTF8.data.toList = .ok
      ([⟨.ifWord, "if", ⟨1, 1⟩, 0⟩, ⟨.lparen, "(", ⟨1, 4⟩, 3⟩, ⟨.ident, "a", ⟨1, 5⟩, 4⟩] ++
        ⟨.rparen, ")", ⟨1, 6⟩, 5⟩ :: [⟨.ident, "b", ⟨1, 8⟩, 7⟩, ⟨.eof, "", ⟨1, 9⟩, 8⟩]) := by rfl
  exact ⟨hparse, parse_of_line_breaks hparse hlex (by rfl) 2⟩

end RSource
