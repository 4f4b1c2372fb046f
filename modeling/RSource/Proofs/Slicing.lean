import RSource.Proofs.Probes
import RSource.Slice

/-!
# Slices that can always be cut

A scan moves its cursor by whole characters, so from a place between characters on all its slices
can be cut.

* `untilOffset?_append`, `slice?_append` — the slice of some characters behind others.
* `Scan.gives` — what a scan comes to on characters read and characters left, without offsets.
* `Scan.run_gives` — **no scan meets a slice that cannot be cut**, whatever it asks.
* `Scan.gives_eatWhile`, `Scan.gives_number` and the like — what each scan comes to.
* `Scan.gives_token` — **a token is scanned as it is read**.
* `sliceAt?_eq` — so the token at a cursor, its lexeme cut out of the text, is the one that is read.
* `Slices`, `exists_slices` — **a token or a fault is found from any place between characters on**,
  and behind a token the cursor stands at such a place again.
-/

namespace RSource

/-! ## Slices -/

/-- The characters in front end at the offset where their bytes do. -/
theorem untilOffset?_append (cs rest : List Char) :
    untilOffset? (cs.flatMap String.utf8EncodeChar).length (cs ++ rest) = some cs := by
  induction cs with
  | nil => rw [List.flatMap_nil, List.length_nil, List.nil_append, untilOffset?]
  | cons c cs ih =>
      have hpos := c.utf8Size_pos
      rw [List.flatMap_cons, List.length_append, String.length_utf8EncodeChar, List.cons_append]
      obtain ⟨n, hn⟩ : ∃ n, c.utf8Size + (cs.flatMap String.utf8EncodeChar).length = n + 1 :=
        ⟨_, (Nat.succ_pred_eq_of_pos (by omega)).symm⟩
      rw [hn, untilOffset?, if_pos (by omega)]
      have hrest : n + 1 - c.utf8Size = (cs.flatMap String.utf8EncodeChar).length := by omega
      rw [hrest, ih]
      rfl

/-- The slice of some characters behind others. -/
theorem slice?_append {start stop : Nat} {before : List Char} (cs rest : List Char)
    (hstart : start = (before.flatMap String.utf8EncodeChar).length)
    (hstop : stop = start + (cs.flatMap String.utf8EncodeChar).length) :
    slice? (before ++ (cs ++ rest)) start stop = some cs := by
  have hlength : stop - start = (cs.flatMap String.utf8EncodeChar).length := by omega
  rw [slice?, if_pos (by omega), hlength, hstart, fromOffset?_append]
  exact untilOffset?_append cs rest

example : slice? ['a', 'é', 'b'] 1 3 = some ['é'] := by decide

example : slice? ['a', 'é', 'b'] 1 2 = none := by decide

/-! ## Lexemes by their first characters -/

namespace Lexeme

theorem untilClose_mark (mark : Char) (cs : List Char) :
    untilClose mark false (mark :: cs) = some ([mark], cs) := by
  simp [untilClose]

theorem untilClose_cons {mark c : Char} {cs : List Char} (hc : c ≠ '\\') (hm : c ≠ mark) :
    untilClose mark false (c :: cs) =
      (untilClose mark false cs).map fun p => (c :: p.1, p.2) := by
  simp only [untilClose, beq_false_of_ne hc, beq_false_of_ne hm, Bool.not_false,
    Bool.and_false, Bool.false_eq_true, if_false]
  cases untilClose mark false cs <;> rfl

theorem untilClose_escaped {mark : Char} (hmark : mark ≠ '\\') (c : Char) (cs : List Char) :
    untilClose mark false ('\\' :: c :: cs) =
      (untilClose mark false cs).map fun p => ('\\' :: c :: p.1, p.2) := by
  simp only [untilClose, beq_false_of_ne hmark.symm, beq_self_eq_true, Bool.not_false,
    Bool.not_true, Bool.and_self, Bool.and_false, Bool.false_and, Bool.false_eq_true, if_false]
  cases untilClose mark false cs <;> rfl

theorem untilClose_cut {mark : Char} (hmark : mark ≠ '\\') :
    untilClose mark false ['\\'] = none := by
  simp [untilClose, hmark.symm]

theorem specialOp_cons {c : Char} (h : isSpecialChar c = true) (cs : List Char) :
    specialOp (c :: cs) =
      (specialOp cs).map fun l => ⟨l.kind, '%' :: c :: l.text.tail, l.rest⟩ := by
  rw [specialOp, specialOp, List.dropWhile_cons_of_pos h,
    List.takeWhile_cons_of_pos h]
  split <;> rfl

theorem exists_cons {c : Char} {cs : List Char} (h : cs[0]? = some c) : ∃ r, cs = c :: r :=
  List.head?_eq_some_iff.mp (List.head?_eq_getElem?.trans h)

theorem any_getElem?_zero (p : Char → Bool) (cs : List Char) :
    cs[0]?.any p = !(cs.takeWhile p).isEmpty := by
  cases cs with
  | nil => rfl
  | cons c cs => cases hc : p c <;> simp [hc]

/-- A sign makes the mark of an exponent one character wider. -/
theorem sign_width (cs : List Char) :
    (if decide (cs[0]? = some '+' ∨ cs[0]? = some '-') = true then 2 else 1) =
      (sign cs).1.length + 1 := by
  by_cases hplus : cs[0]? = some '+'
  · obtain ⟨r, rfl⟩ := exists_cons hplus
    rfl
  · by_cases hminus : cs[0]? = some '-'
    · obtain ⟨r, rfl⟩ := exists_cons hminus
      rfl
    · rw [if_neg (by simp [hplus, hminus]), sign]
      · rfl
      · rintro r rfl
        exact hplus rfl
      · rintro r rfl
        exact hminus rfl

end Lexeme

namespace Scan

variable {α β : Type}

/-! ## Scans without offsets -/

/-- What a scan comes to, given what has been read since its start and what is left. -/
def gives : Scan α → List Char → List Char → Except LexFault (α × List Char × List Char)
  | done a, read, rest => .ok (a, read, rest)
  | fail fault, _, _ => .error fault
  | ahead k, read, rest => (k rest).gives read rest
  | bump k, read, [] => (k none).gives read []
  | bump k, read, c :: rest => (k (some c)).gives (read ++ [c]) rest
  | lexeme k, read, rest => (k read).gives read rest

/-- The cursor behind what has been read, or the fault at the start. -/
def placed (start : Cursor) :
    Except LexFault (α × List Char × List Char) → Except LexError (α × Cursor)
  | .error fault => .error ⟨fault, start.loc⟩
  | .ok (a, read, _) => .ok (a, start.advance read)

/-- What is left behind what has been read. -/
theorem fromOffset?_advance {text before read rest : List Char} {start : Cursor}
    (htext : text = before ++ (read ++ rest))
    (hstart : start.offset = (before.flatMap String.utf8EncodeChar).length) :
    fromOffset? (start.advance read).offset text = some rest := by
  refine fromOffset?_eq_some_iff.mpr ⟨before ++ read, by rw [htext, List.append_assoc], ?_⟩
  rw [Cursor.offset_advance, hstart, List.flatMap_append, List.length_append]

/-- **No scan meets a slice that cannot be cut**, whatever it asks: from a place between characters
on it comes to something, at a place between characters again. -/
theorem run_gives (p : Scan α) {text before read rest : List Char} {start : Cursor}
    (htext : text = before ++ (read ++ rest))
    (hstart : start.offset = (before.flatMap String.utf8EncodeChar).length) :
    p.run text start (start.advance read) = some (placed start (p.gives read rest)) := by
  induction p generalizing read rest with
  | done a => rfl
  | fail fault => rfl
  | ahead k ih =>
      rw [run, fromOffset?_advance htext hstart]
      exact ih rest htext
  | bump k ih =>
      rw [run, fromOffset?_advance htext hstart]
      cases rest with
      | nil => exact ih none htext
      | cons c rest =>
          have hstep : (start.advance read).step c = start.advance (read ++ [c]) :=
            (Cursor.advance_append start read [c]).symm
          change (k (some c)).run text start ((start.advance read).step c) = _
          rw [hstep]
          exact ih (some c) (by rw [htext, List.append_assoc, List.singleton_append])
  | lexeme k ih =>
      rw [run, htext, slice?_append read rest hstart (Cursor.offset_advance start read), ← htext]
      exact ih read htext

/-- A scan that starts between characters. -/
theorem run_start (p : Scan α) {text before rest : List Char} {start : Cursor}
    (htext : text = before ++ rest)
    (hstart : start.offset = (before.flatMap String.utf8EncodeChar).length) :
    p.run text start start = some (placed start (p.gives [] rest)) :=
  p.run_gives (show text = before ++ ([] ++ rest) from htext) hstart

theorem run_ahead_none {f : List Char → Scan α} {text : List Char} {start k : Cursor}
    (h : fromOffset? k.offset text = none) : (ahead f).run text start k = none := by
  rw [run, h]

/-! ## The scans of tokens -/

section Laws

variable {read rest : List Char}

theorem gives_bind (p : Scan α) (f : α → Scan β) (read rest : List Char) :
    (p >>= f).gives read rest =
      match p.gives read rest with
      | .error fault => .error fault
      | .ok (a, read', rest') => (f a).gives read' rest' := by
  change (p.bind f).gives read rest = _
  induction p generalizing read rest with
  | done a => rfl
  | fail fault => rfl
  | ahead k ih => exact ih rest read rest
  | bump k ih =>
      cases rest with
      | nil => exact ih none read []
      | cons c rest => exact ih (some c) (read ++ [c]) rest
  | lexeme k ih => exact ih read read rest

/-- A scan that has come to something goes on from there. -/
theorem gives_bind_ok {p : Scan α} {f : α → Scan β} {read' rest' : List Char} {a : α}
    (h : p.gives read rest = .ok (a, read', rest')) :
    (p >>= f).gives read rest = (f a).gives read' rest' := by
  rw [gives_bind, h]

@[simp] theorem gives_pure (a : α) : (pure a : Scan α).gives read rest = .ok (a, read, rest) := rfl

@[simp] theorem gives_look_bind (f : List Char → Scan β) :
    (look >>= f).gives read rest = (f rest).gives read rest := rfl

@[simp] theorem gives_peek_bind (n : Nat) (f : Option Char → Scan β) :
    (peek n >>= f).gives read rest = (f rest[n]?).gives read rest := rfl

@[simp] theorem gives_next_bind_cons (c : Char) (f : Option Char → Scan β) :
    (next >>= f).gives read (c :: rest) = (f (some c)).gives (read ++ [c]) rest := rfl

/-- All characters of which `p` holds are passed, if the bound allows for so many. -/
theorem gives_eatWhile (p : Char → Bool) {bound : Nat} (h : rest.length ≤ bound) :
    (eatWhile p bound).gives read rest =
      .ok ((rest.takeWhile p).length, read ++ rest.takeWhile p, rest.dropWhile p) := by
  induction bound generalizing read rest with
  | zero =>
      obtain rfl := List.length_eq_zero_iff.mp (Nat.le_zero.mp h)
      simp [eatWhile]
  | succ bound ih =>
      cases rest with
      | nil => simp [eatWhile]
      | cons c rest =>
          have hrest : rest.length ≤ bound := by simpa using h
          rw [eatWhile, gives_peek_bind, List.getElem?_cons_zero]
          by_cases hc : p c = true
          · simp only [hc, if_true, gives_next_bind_cons, List.takeWhile_cons_of_pos hc,
              List.dropWhile_cons_of_pos hc]
            rw [gives_bind_ok (ih hrest), gives_pure, List.append_assoc, List.singleton_append,
              List.length_cons]
          · simp only [hc, Bool.false_eq_true, if_false, gives_pure,
              List.takeWhile_cons_of_neg hc, List.dropWhile_cons_of_neg hc, List.append_nil,
              List.length_nil]

theorem gives_pass {n : Nat} (h : n ≤ rest.length) :
    (pass n).gives read rest = .ok ((), read ++ rest.take n, rest.drop n) := by
  induction n generalizing read rest with
  | zero => simp [pass]
  | succ n ih =>
      cases rest with
      | nil => simp at h
      | cons c rest =>
          rw [pass, gives_next_bind_cons, ih (by simpa using h), List.take_succ_cons,
            List.drop_succ_cons, List.append_assoc, List.singleton_append]

theorem gives_fault {bound : Nat} (kind : String → LexFault) (h : rest.length ≤ bound) :
    (fault bound kind : Scan α).gives read rest =
      .error (kind (String.ofList (read ++ Lexeme.nameRun rest))) := by
  rw [fault, gives_bind_ok (gives_eatWhile _ h)]
  rfl

/-! ## Strings, quoted names, special operators and comments -/

theorem gives_untilMark {mark : Char} (fault : LexFault) (hmark : mark ≠ '\\') {bound : Nat}
    (h : rest.length ≤ bound) : (untilMark mark fault bound).gives read rest =
      match Lexeme.untilClose mark false rest with
      | none => .error fault
      | some (text, rest') => .ok ((), read ++ text, rest') := by
  -- A backslash passes two characters, so the induction is on all smaller bounds.
  induction bound using Nat.strong_induction_on generalizing read rest with
  | _ bound ih =>
      cases bound with
      | zero =>
          obtain rfl := List.length_eq_zero_iff.mp (Nat.le_zero.mp h)
          rfl
      | succ bound =>
          cases rest with
          | nil => rfl
          | cons c rest =>
              rw [List.length_cons] at h
              rw [untilMark, gives_next_bind_cons]
              by_cases hc : c = '\\'
              · subst hc
                simp only [if_true]
                cases rest with
                | nil =>
                    rw [Lexeme.untilClose_cut hmark]
                    rfl
                | cons d rest =>
                    rw [List.length_cons] at h
                    rw [gives_next_bind_cons, Lexeme.untilClose_escaped hmark,
                      ih bound (Nat.lt_succ_self _) (by omega)]
                    cases Lexeme.untilClose mark false rest <;> simp
              · by_cases hm : c = mark
                · subst hm
                  simp only [if_neg hc, if_true]
                  rw [gives_pure, Lexeme.untilClose_mark]
                · simp only [if_neg hc, if_neg hm]
                  rw [Lexeme.untilClose_cons hc hm, ih bound (Nat.lt_succ_self _) (by omega)]
                  cases Lexeme.untilClose mark false rest <;> simp

theorem gives_delimited (kind : TokenKind) (fault : LexFault) {mark : Char} (hmark : mark ≠ '\\')
    {bound : Nat} (h : rest.length ≤ bound) :
    (delimited kind fault mark bound).gives [] (mark :: rest) =
      (Lexeme.delimited kind fault mark rest).map fun l => (l.kind, l.text, l.rest) := by
  rw [delimited, gives_next_bind_cons, gives_bind, gives_untilMark fault hmark h, Lexeme.delimited]
  cases Lexeme.untilClose mark false rest <;> rfl

theorem gives_untilPercent {bound : Nat} (h : rest.length ≤ bound) :
    (untilPercent bound).gives read rest =
      (Lexeme.specialOp rest).map fun l => ((), read ++ l.text.tail, l.rest) := by
  induction bound generalizing read rest with
  | zero =>
      obtain rfl := List.length_eq_zero_iff.mp (Nat.le_zero.mp h)
      rfl
  | succ bound ih =>
      cases rest with
      | nil => rfl
      | cons c rest =>
          have hrest : rest.length ≤ bound := by simpa using h
          rw [untilPercent, gives_peek_bind, List.getElem?_cons_zero]
          by_cases hline : c = '\n'
          · subst hline
            rfl
          · by_cases hpercent : c = '%'
            · subst hpercent
              rfl
            · have hspecial : Lexeme.isSpecialChar c = true := by
                simp [Lexeme.isSpecialChar, hline, hpercent]
              simp only [if_neg hline, if_neg hpercent]
              rw [gives_next_bind_cons, ih hrest, Lexeme.specialOp_cons hspecial]
              cases Lexeme.specialOp rest with
              | error fault => rfl
              | ok l => simp [Except.map]

theorem gives_specialOp {bound : Nat} (h : rest.length ≤ bound) :
    (specialOp bound).gives [] ('%' :: rest) =
      (Lexeme.specialOp rest).map fun l => (l.kind, l.text, l.rest) := by
  rw [specialOp, gives_next_bind_cons, gives_bind, gives_untilPercent h]
  cases hl : Lexeme.specialOp rest with
  | error fault => rfl
  | ok l =>
      obtain ⟨r, -, rfl⟩ := Lexeme.specialOp_ok hl
      rfl

theorem gives_comment {bound : Nat} (h : rest.length ≤ bound) :
    (comment bound).gives [] rest = .ok (.comment, (Lexeme.comment rest).text,
      (Lexeme.comment rest).rest) := by
  rw [comment, gives_bind_ok (gives_eatWhile _ h)]
  rfl

/-! ## Numeric constants -/

theorem gives_mantissa {bound : Nat} (h : rest.length ≤ bound) :
    (mantissa bound).gives read rest = .ok ((Lexeme.mantissa rest).form,
      read ++ (Lexeme.mantissa rest).text, (Lexeme.mantissa rest).rest) := by
  have hdrop := List.length_dropWhile_le Lexeme.isDigit rest
  rw [mantissa, gives_bind_ok (gives_eatWhile _ h), gives_peek_bind]
  by_cases hpoint : (rest.dropWhile Lexeme.isDigit)[0]? = some '.'
  · obtain ⟨r, hr⟩ := Lexeme.exists_cons hpoint
    have hm : Lexeme.mantissa rest = ⟨.float, rest.takeWhile Lexeme.isDigit ++
        '.' :: r.takeWhile Lexeme.isDigit, r.dropWhile Lexeme.isDigit⟩ := by
      simp only [Lexeme.mantissa, hr]
    rw [hr, List.length_cons] at hdrop
    rw [if_pos hpoint, hr, gives_next_bind_cons, gives_bind_ok (gives_eatWhile _ (by omega)),
      gives_pure, hm]
    simp
  · have hm : Lexeme.mantissa rest =
        ⟨.integer, rest.takeWhile Lexeme.isDigit, rest.dropWhile Lexeme.isDigit⟩ := by
      rw [Lexeme.mantissa]
      split
      · rename_i r hr
        rw [hr] at hpoint
        exact (hpoint rfl).elim
      · rfl
    rw [if_neg hpoint, gives_pure, hm]

theorem gives_exponent {bound : Nat} (form : NumKind) (h : rest.length ≤ bound) :
    (exponent bound form).gives read rest =
      match Lexeme.exponent rest with
      | none => .ok (form, read, rest)
      | some (text, rest') => .ok (.float, read ++ text, rest') := by
  rw [exponent, gives_peek_bind]
  cases rest with
  | nil => rfl
  | cons mark cs =>
      rw [List.getElem?_cons_zero, Lexeme.exponent]
      by_cases hmark : mark = 'e' ∨ mark = 'E'
      · have hsome : some mark = some 'e' ∨ some mark = some 'E' := by simpa using hmark
        have hsplit : mark :: cs = (mark :: (Lexeme.sign cs).1) ++ (Lexeme.sign cs).2 := by
          rw [List.cons_append, Lexeme.sign_split]
        have hwidth : (mark :: (Lexeme.sign cs).1).length = (Lexeme.sign cs).1.length + 1 := rfl
        have hlength := congrArg List.length hsplit
        rw [List.length_append] at hlength
        have hdigit : (mark :: cs)[(Lexeme.sign cs).1.length + 1]? = (Lexeme.sign cs).2[0]? := by
          rw [hsplit, ← hwidth, List.getElem?_append_right (Nat.le_refl _), Nat.sub_self]
        rw [if_pos hsome, if_pos hmark, gives_peek_bind, List.getElem?_cons_succ]
        simp only [Lexeme.sign_width]
        rw [gives_peek_bind, hdigit, Lexeme.any_getElem?_zero]
        by_cases hdigits : ((Lexeme.sign cs).2.takeWhile Lexeme.isDigit).isEmpty = true
        · simp [hdigits]
        · have hpass : (pass ((Lexeme.sign cs).1.length + 1)).gives read (mark :: cs) =
              .ok ((), read ++ (mark :: (Lexeme.sign cs).1), (Lexeme.sign cs).2) := by
            rw [gives_pass (by omega), hsplit, List.take_left' hwidth, List.drop_left' hwidth]
          have hbound : (Lexeme.sign cs).2.length ≤ bound := by omega
          rw [if_pos (by simpa using hdigits), gives_bind_ok hpass,
            gives_bind_ok (gives_eatWhile _ hbound), gives_pure, if_neg hdigits]
          simp
      · have hnone : ¬(some mark = some 'e' ∨ some mark = some 'E') := by simpa using hmark
        rw [if_neg hnone, if_neg hmark, gives_pure]

/-- A decimal numeral. -/
theorem gives_decimal {bound : Nat} (h : rest.length ≤ bound) :
    (mantissa bound >>= exponent bound).gives read rest = .ok ((Lexeme.decimal rest).form,
      read ++ (Lexeme.decimal rest).text, (Lexeme.decimal rest).rest) := by
  have hsplit := congrArg List.length (Lexeme.mantissa_split rest)
  rw [List.length_append] at hsplit
  rw [gives_bind_ok (gives_mantissa h), gives_exponent _ (by omega), Lexeme.decimal]
  cases Lexeme.exponent (Lexeme.mantissa rest).rest with
  | none => rfl
  | some p => simp

theorem gives_hexadecimal {bound : Nat} (x : Char) (h : rest.length ≤ bound) :
    (hexadecimal bound).gives [] ('0' :: x :: rest) =
      if (rest.takeWhile Lexeme.isHexDigit).isEmpty then
        .error (.invalidNumber (String.ofList ('0' :: x :: Lexeme.nameRun rest)))
      else .ok (.hex, '0' :: x :: rest.takeWhile Lexeme.isHexDigit,
        rest.dropWhile Lexeme.isHexDigit) := by
  have hpass : (pass 2).gives [] ('0' :: x :: rest) = .ok ((), ['0', x], rest) :=
    gives_pass (by simp)
  rw [hexadecimal, gives_bind_ok hpass, gives_bind_ok (gives_eatWhile _ h)]
  cases hdigits : rest.takeWhile Lexeme.isHexDigit with
  | nil =>
      have hall : rest.dropWhile Lexeme.isHexDigit = rest := by
        have hsplit := List.takeWhile_append_dropWhile (p := Lexeme.isHexDigit) (l := rest)
        rwa [hdigits] at hsplit
      rw [hall]
      exact gives_fault _ h
  | cons d ds => rfl

theorem gives_numeral {bound : Nat} (h : rest.length ≤ bound) :
    (numeral bound).gives [] rest =
      (Lexeme.numeral rest).map fun n => (n.form, n.text, n.rest) := by
  rw [numeral, gives_peek_bind, gives_peek_bind, Lexeme.numeral]
  split
  · rename_i hmark
    obtain ⟨hzero, hsecond⟩ := hmark
    obtain ⟨r, rfl⟩ := Lexeme.exists_cons hzero
    obtain ⟨x, r, rfl, hx⟩ : ∃ x r', r = x :: r' ∧ (x = 'x' ∨ x = 'X') := by
      rcases hsecond with hsecond | hsecond
      · obtain ⟨r', rfl⟩ := Lexeme.exists_cons hsecond
        exact ⟨_, r', rfl, .inl rfl⟩
      · obtain ⟨r', rfl⟩ := Lexeme.exists_cons hsecond
        exact ⟨_, r', rfl, .inr rfl⟩
    have hbound : r.length ≤ bound := by
      simp only [List.length_cons] at h
      omega
    have hhex : Lexeme.hexMark ('0' :: x :: r) = some (['0', x], r) := by
      exact if_pos hx
    rw [gives_hexadecimal x hbound, hhex]
    simp only
    split <;> rfl
  · rename_i hmark
    have hhex : Lexeme.hexMark rest = none := by
      unfold Lexeme.hexMark
      split
      · rename_i x r
        exact if_neg fun hx => hmark ⟨rfl, by simpa using hx⟩
      · rfl
    rw [hhex]
    exact gives_decimal h

theorem gives_suffix {bound : Nat} (n : Lexeme.Numeral) (h : n.rest.length ≤ bound) :
    (suffix bound n.form).gives n.text n.rest =
      (Lexeme.suffix n).map fun m => (m.form, m.text, m.rest) := by
  obtain ⟨form, text, rest⟩ := n
  rw [suffix, gives_peek_bind, gives_peek_bind]
  split
  · rename_i hfirst hsecond
    obtain ⟨r, rfl⟩ := Lexeme.exists_cons hfirst
    obtain ⟨r, rfl⟩ := Lexeme.exists_cons hsecond
    exact gives_fault _ h
  · rename_i hfirst hsecond
    obtain ⟨r, rfl⟩ := Lexeme.exists_cons hfirst
    obtain ⟨r, rfl⟩ := Lexeme.exists_cons hsecond
    exact gives_fault _ h
  · rename_i hfirst hsecond
    obtain ⟨r, rfl⟩ := Lexeme.exists_cons hfirst
    have hm : Lexeme.suffix ⟨form, text, 'L' :: r⟩ = .ok ⟨form, text ++ ['L'], r⟩ := by
      unfold Lexeme.suffix
      split <;> simp_all
    rw [hm]
    rfl
  · rename_i hfirst hsecond
    obtain ⟨r, rfl⟩ := Lexeme.exists_cons hfirst
    have hm : Lexeme.suffix ⟨form, text, 'i' :: r⟩ = .ok ⟨.complex, text ++ ['i'], r⟩ := by
      unfold Lexeme.suffix
      split <;> simp_all
    rw [hm]
    rfl
  · have hm : Lexeme.suffix ⟨form, text, rest⟩ = .ok ⟨form, text, rest⟩ := by
      unfold Lexeme.suffix
      split <;> simp_all
    rw [hm]
    rfl

theorem gives_number {bound : Nat} (h : rest.length ≤ bound) :
    (number bound).gives [] rest =
      (Lexeme.number rest).map fun l => (l.kind, l.text, l.rest) := by
  rw [number, gives_bind, gives_numeral h, Lexeme.number]
  cases hn : Lexeme.numeral rest with
  | error fault => rfl
  | ok n =>
      have hnrest := congrArg List.length (Lexeme.numeral_split hn)
      rw [List.length_append] at hnrest
      simp only [Except.map]
      rw [gives_bind, gives_suffix n (by omega)]
      cases hm : Lexeme.suffix n with
      | error fault => rfl
      | ok m =>
          have hmrest := congrArg List.length (Lexeme.suffix_split hm)
          rw [List.length_append, List.length_append] at hmrest
          simp only [Except.map]
          rw [gives_peek_bind, Lexeme.any_getElem?_zero, Lexeme.endNumeral, ← Lexeme.nameRun]
          cases hrun : (Lexeme.nameRun m.rest).isEmpty with
          | true => rfl
          | false =>
              have hfault : (fault bound .invalidIdentifier : Scan TokenKind).gives m.text m.rest =
                  _ := gives_fault _ (by omega)
              exact hfault

/-! ## Tokens -/

theorem gives_word {bound : Nat} (h : rest.length ≤ bound) :
    (word bound).gives [] rest = .ok ((Lexeme.word rest).kind, (Lexeme.word rest).text,
      (Lexeme.word rest).rest) := by
  rw [word, gives_bind_ok (gives_eatWhile _ h)]
  rfl

theorem gives_symbol (c : Char) :
    (symbol c).gives [] rest =
      match Lexeme.symbol? rest with
      | none => .error (.unexpectedChar c)
      | some l => .ok (l.kind, l.text, l.rest) := by
  rw [symbol, gives_look_bind, Lexeme.symbol?]
  cases hs : Lexeme.symbols.find? (fun s => s.1.isPrefixOf rest) with
  | none => rfl
  | some s =>
      obtain ⟨text, kind⟩ := s
      have hprefix := List.find?_some hs
      obtain ⟨r, rfl⟩ := List.isPrefixOf_iff_prefix.mp hprefix
      have hpass : (pass text.length).gives [] (text ++ r) = .ok ((), text, r) := by
        rw [gives_pass (by simp), List.take_left, List.drop_left, List.nil_append]
      simp only
      rw [gives_bind_ok hpass, gives_pure, List.drop_left]

/-- **A token is scanned as it is read.** -/
theorem gives_token {bound : Nat} (h : rest.length ≤ bound) :
    (token bound).gives [] rest =
      (Lexeme.scan rest).map fun l => (l.kind, l.text, l.rest) := by
  rw [token, gives_look_bind, Lexeme.scan]
  cases rest with
  | nil => rfl
  | cons c cs =>
      have hcs : cs.length ≤ bound := Nat.le_of_succ_le h
      have hlead := Lexeme.announces_lead c cs
      generalize Lexeme.lead (c :: cs) = lead at hlead
      cases hlead with
      | newline => rfl
      | comment => exact gives_comment h
      | string hc => exact gives_delimited _ _ (by rcases hc with rfl | rfl <;> decide) hcs
      | quotedIdent => exact gives_delimited _ _ (by decide) hcs
      | special => exact gives_specialOp hcs
      | number hc => exact gives_number h
      | word hc => exact gives_word h
      | underscore => exact gives_fault _ h
      | symbol c =>
          rw [gives_symbol]
          cases Lexeme.symbol? (c :: cs) <;> rfl

theorem gives_skipBlanks {bound : Nat} (h : rest.length ≤ bound) :
    (skipBlanks bound).gives [] rest = .ok ((), Lexeme.blanks rest, Lexeme.afterBlanks rest) := by
  rw [skipBlanks, gives_bind_ok (gives_eatWhile _ h)]
  rfl

end Laws

end Scan

/-! ## Tokens at a cursor -/

/-- A character of the text starts at the byte offset, or the text ends there. -/
def IsBoundary (text : List Char) (n : Nat) : Prop :=
  ∃ before rest, text = before ++ rest ∧ n = (before.flatMap String.utf8EncodeChar).length

variable {text before rest : List Char} {k : Cursor}

/-- Between characters the token whose lexeme is cut out of the text is the one that is read. -/
theorem sliceAt?_of_boundary (htext : text = before ++ rest)
    (hoffset : k.offset = (before.flatMap String.utf8EncodeChar).length) :
    sliceAt? text k = tokenAt? text k := by
  have hrest : rest.length ≤ text.length := by
    rw [htext, List.length_append]
    omega
  have hafter : (Lexeme.afterBlanks rest).length ≤ text.length :=
    (List.length_dropWhile_le _ _).trans hrest
  have hstart : (k.advance (Lexeme.blanks rest)).offset =
      ((before ++ Lexeme.blanks rest).flatMap String.utf8EncodeChar).length := by
    rw [Cursor.offset_advance, hoffset, List.flatMap_append, List.length_append]
  have htext' : text = before ++ Lexeme.blanks rest ++ Lexeme.afterBlanks rest := by
    rw [List.append_assoc, Lexeme.blanks_append_afterBlanks, htext]
  rw [sliceAt?, Scan.run_start _ htext hoffset, Scan.gives_skipBlanks hrest, tokenAt?,
    fromOffset?_eq_some_iff.mpr ⟨before, htext, hoffset⟩]
  simp only [Scan.placed]
  rw [Scan.run_start _ htext' hstart, Scan.gives_token hafter, Reader.next, Reader.skipBlanks,
    Reader.read]
  simp only
  cases hl : Lexeme.scan (Lexeme.afterBlanks rest) with
  | error fault => rfl
  | ok l =>
      have hsplit := Lexeme.scan_split hl
      have hlexeme : slice? text (k.advance (Lexeme.blanks rest)).offset
          ((k.advance (Lexeme.blanks rest)).advance l.text).offset = some l.text := by
        rw [htext', ← hsplit]
        exact slice?_append l.text l.rest hstart (Cursor.offset_advance _ _)
      simp only [Except.map, Scan.placed]
      rw [hlexeme]

/-- At a cursor inside a character or past the end no slice can be cut, not even the first. -/
theorem sliceAt?_of_inside (h : fromOffset? k.offset text = none) : sliceAt? text k = none := by
  rw [sliceAt?]
  cases text with
  | nil =>
      -- No blanks are looked for in the empty text, so the token is the first to ask.
      have hskip : (Scan.skipBlanks 0).run [] k k = some (.ok ((), k)) := rfl
      have htoken : (Scan.token 0).run [] k k = none := Scan.run_ahead_none h
      rw [List.length_nil, hskip]
      simp only
      rw [htoken]
  | cons c cs =>
      have hskip : (Scan.skipBlanks (cs.length + 1)).run (c :: cs) k k = none :=
        Scan.run_ahead_none h
      rw [List.length_cons, hskip]

/-- **At any cursor the token whose lexeme is cut out of the text is the one that is read**, and
where none can be read no slice can be cut. -/
theorem sliceAt?_eq (text : List Char) (k : Cursor) : sliceAt? text k = tokenAt? text k := by
  cases h : fromOffset? k.offset text with
  | none => rw [sliceAt?_of_inside h, tokenAt?, h]
  | some rest =>
      obtain ⟨before, htext, hoffset⟩ := fromOffset?_eq_some_iff.mp h
      exact sliceAt?_of_boundary htext hoffset

/-- What comes of the token at a cursor whose lexeme is cut out of the text: it is what is read
there. Behind a token the cursor stands between characters again. It does not go back, and only at
the end of the text does it stay. -/
structure Slices (text : List Char) (k : Cursor) (x : Except LexError (Token × Cursor)) :
    Prop where
  sliced : sliceAt? text k = some x
  read : tokenAt? text k = some x
  boundary : ∀ t k', x = .ok (t, k') → IsBoundary text k'.offset
  le : ∀ t k', x = .ok (t, k') → k.offset ≤ k'.offset
  lt : ∀ t k', x = .ok (t, k') → t.kind ≠ .eof → k.offset < k'.offset

/-- **From any place between characters a token or a fault is found**: every slice can be cut. -/
theorem exists_slices (h : IsBoundary text k.offset) : ∃ x, Slices text k x := by
  obtain ⟨before, rest, htext, hoffset⟩ := h
  have hslice := sliceAt?_eq text k
  have hrest : fromOffset? k.offset text = some rest :=
    fromOffset?_eq_some_iff.mpr ⟨before, htext, hoffset⟩
  cases hn : (Reader.mk k rest).next with
  | error e =>
      have hread : tokenAt? text k = some (.error e) := by
        rw [tokenAt?, hrest]
        simp only [hn]
      refine ⟨.error e, hslice.trans hread, hread, ?_, ?_, ?_⟩
      all_goals
        intro t k' hx
        cases hx
  | ok p =>
      obtain ⟨t, after⟩ := p
      have hread : tokenAt? text k = some (.ok (t, after.cursor)) := by
        rw [tokenAt?, hrest]
        simp only [hn]
      have hgap := (Reader.next_offset hn).1
      obtain ⟨hsplit, hstart, hstop⟩ := Reader.next_split hn
      refine ⟨.ok (t, after.cursor), hslice.trans hread, hread, ?_, ?_, ?_⟩
      · rintro _ _ ⟨⟩
        refine ⟨before ++ (Lexeme.blanks rest ++ t.lexeme.toList), after.rest, ?_, ?_⟩
        · rw [List.append_assoc, List.append_assoc, ← hsplit, htext]
        · rw [hstop, hstart, ← Cursor.advance_append, Cursor.offset_advance, hoffset,
            ← List.length_append, ← List.flatMap_append]
      · rintro _ _ ⟨⟩
        rw [← Reader.stop_of_next hn]
        exact hgap.trans (Nat.le_add_right _ _)
      · rintro _ _ ⟨⟩ hk
        exact hgap.trans_lt (Reader.next_offset_lt hn hk)

end RSource
