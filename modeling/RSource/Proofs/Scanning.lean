import RSource.Lexeme.Scan

/-!
# What a scanner reads

A scanner takes characters off the front of a text and leaves the others alone.

* `Reading` — the ways in which a token can be read, with all that is known of each.
* `scan_split` — what is read, followed by what is left, is what was there.
* `scan_text_ne_nil` — every token but the end of the input takes a character.
* `scan_eof` — the end of the input is read only where nothing is left.
-/

namespace RSource.Lexeme

/-- The ways in which a lexeme can be read off the front of some characters. -/
inductive Reading : List Char → Lexeme → Prop where
  | eof : Reading [] ⟨.eof, [], []⟩
  | newline (cs : List Char) : Reading ('\n' :: cs) ⟨.newline, ['\n'], cs⟩
  | comment (cs : List Char) : Reading ('#' :: cs) (comment ('#' :: cs))
  | string {mark : Char} {cs body rest : List Char} (hm : mark = '\x22' ∨ mark = '\x27')
      (h : untilClose mark false cs = some (body, rest)) :
      Reading (mark :: cs) ⟨.str, mark :: body, rest⟩
  | quotedIdent {cs body rest : List Char} (h : untilClose '\x60' false cs = some (body, rest)) :
      Reading ('\x60' :: cs) ⟨.quotedIdent, '\x60' :: body, rest⟩
  | special {cs rest : List Char} (h : cs.dropWhile isSpecialChar = '%' :: rest) :
      Reading ('%' :: cs) ⟨.special, '%' :: (cs.takeWhile isSpecialChar ++ ['%']), rest⟩
  | number {c : Char} {cs : List Char} {n m : Numeral} (hl : lead (c :: cs) = .number)
      (hn : numeral (c :: cs) = .ok n) (hm : suffix n = .ok m) (hr : nameRun m.rest = []) :
      Reading (c :: cs) ⟨.num m.form, m.text, m.rest⟩
  | word {c : Char} {cs : List Char} (hl : lead (c :: cs) = .word) :
      Reading (c :: cs) (word (c :: cs))
  | symbol {c : Char} {cs text : List Char} {kind : TokenKind} (hl : lead (c :: cs) = .symbol c)
      (hf : symbols.find? (fun s => s.1.isPrefixOf (c :: cs)) = some (text, kind)) :
      Reading (c :: cs) ⟨kind, text, (c :: cs).drop text.length⟩

/-! ## Every scan is a reading -/

theorem delimited_ok {kind : TokenKind} {fault : LexFault} {mark : Char} {cs : List Char}
    {l : Lexeme} (h : delimited kind fault mark cs = .ok l) :
    ∃ body rest, untilClose mark false cs = some (body, rest) ∧ l = ⟨kind, mark :: body, rest⟩ := by
  unfold delimited at h
  split at h
  · cases h
  · rename_i body rest heq
    cases h
    exact ⟨body, rest, heq, rfl⟩

theorem specialOp_ok {cs : List Char} {l : Lexeme} (h : specialOp cs = .ok l) :
    ∃ rest, cs.dropWhile isSpecialChar = '%' :: rest ∧
      l = ⟨.special, '%' :: (cs.takeWhile isSpecialChar ++ ['%']), rest⟩ := by
  unfold specialOp at h
  split at h
  · rename_i rest heq
    cases h
    exact ⟨rest, heq, rfl⟩
  · cases h

theorem number_ok {cs : List Char} {l : Lexeme} (h : number cs = .ok l) :
    ∃ n m, numeral cs = .ok n ∧ suffix n = .ok m ∧ nameRun m.rest = [] ∧
      l = ⟨.num m.form, m.text, m.rest⟩ := by
  unfold number at h
  split at h
  · cases h
  · rename_i n hn
    split at h
    · cases h
    · rename_i m hm
      unfold endNumeral at h
      split at h
      · rename_i hr
        cases h
        exact ⟨n, m, hn, hm, by simpa using hr, rfl⟩
      · cases h

theorem symbol?_some {cs : List Char} {l : Lexeme} (h : symbol? cs = some l) :
    ∃ text kind, symbols.find? (fun s => s.1.isPrefixOf cs) = some (text, kind) ∧
      l = ⟨kind, text, cs.drop text.length⟩ := by
  unfold symbol? at h
  split at h
  · cases h
  · rename_i text kind heq
    cases h
    exact ⟨text, kind, heq, rfl⟩

/-- The characters that announce each kind of lexeme. -/
inductive Announces (cs : List Char) : Char → Lead → Prop where
  | newline : Announces cs '\n' .newline
  | comment : Announces cs '#' .comment
  | string {c : Char} (hc : c = '\x22' ∨ c = '\x27') : Announces cs c (.string c)
  | quotedIdent : Announces cs '\x60' .quotedIdent
  | special : Announces cs '%' .special
  | number {c : Char} (hc : isDigit c = true ∨ c = '.' ∧ startsWithDigit cs = true) :
      Announces cs c .number
  | word {c : Char} (hc : startsName c = true) : Announces cs c .word
  | underscore : Announces cs '_' .underscore
  | symbol (c : Char) : Announces cs c (.symbol c)

theorem announces_lead (c : Char) (cs : List Char) : Announces cs c (lead (c :: cs)) := by
  rw [lead]
  split
  · rename_i h; subst h; exact .newline
  split
  · rename_i h; subst h; exact .comment
  split
  · rename_i h; exact .string h
  split
  · rename_i h; subst h; exact .quotedIdent
  split
  · rename_i h; subst h; exact .special
  split
  · rename_i h; exact .number h
  split
  · rename_i h; exact .word h
  split
  · rename_i h; subst h; exact .underscore
  · exact .symbol c

/-- **Every lexeme that is read is read in one of the ways.** -/
theorem reading_of_scan {cs : List Char} {l : Lexeme} (h : scan cs = .ok l) : Reading cs l := by
  unfold scan at h
  cases cs with
  | nil => cases h; exact .eof
  | cons c cs =>
      have ha := announces_lead c cs
      generalize hl : lead (c :: cs) = front at ha h
      cases ha with
      | newline => cases h; exact .newline cs
      | comment => cases h; exact .comment cs
      | string hc =>
          obtain ⟨body, rest, hb, rfl⟩ := delimited_ok h
          exact .string hc hb
      | quotedIdent =>
          obtain ⟨body, rest, hb, rfl⟩ := delimited_ok h
          exact .quotedIdent hb
      | special =>
          obtain ⟨rest, hr, rfl⟩ := specialOp_ok h
          exact .special hr
      | number hc =>
          obtain ⟨n, m, hn, hm, hr, rfl⟩ := number_ok h
          exact .number hl hn hm hr
      | word hc => cases h; exact .word hl
      | underscore => cases h
      | symbol =>
          simp only at h
          split at h
          · cases h
          · rename_i hs
            cases h
            obtain ⟨text, kind, hf, rfl⟩ := symbol?_some hs
            exact .symbol hl hf

/-! ## What is read and what is left -/

theorem untilClose_split {mark : Char} {esc : Bool} {cs text rest : List Char}
    (h : untilClose mark esc cs = some (text, rest)) : text ++ rest = cs := by
  induction cs generalizing esc text with
  | nil => cases h
  | cons c cs ih =>
      rw [untilClose] at h
      split at h
      · cases h; rfl
      · split at h
        · cases h
        · rename_i heq
          cases h
          rw [List.cons_append, ih heq]

theorem mantissa_split (cs : List Char) : (mantissa cs).text ++ (mantissa cs).rest = cs := by
  have hs := List.takeWhile_append_dropWhile (p := isDigit) (l := cs)
  unfold mantissa
  split
  · rename_i rest heq
    rw [heq] at hs
    have hr := List.takeWhile_append_dropWhile (p := isDigit) (l := rest)
    simp only [List.append_assoc, List.cons_append]
    rw [hr, hs]
  · exact hs

theorem sign_split (cs : List Char) : (sign cs).1 ++ (sign cs).2 = cs := by
  unfold sign
  split <;> rfl

/-- An exponent is a mark, at most one sign and some digits. -/
theorem exponent_some {cs text rest : List Char} (h : exponent cs = some (text, rest)) :
    ∃ mark r, cs = mark :: r ∧ (mark = 'e' ∨ mark = 'E') ∧ (sign r).2.takeWhile isDigit ≠ [] ∧
      text = mark :: ((sign r).1 ++ (sign r).2.takeWhile isDigit) ∧
      rest = (sign r).2.dropWhile isDigit := by
  unfold exponent at h
  split at h
  · cases h
  · rename_i mark r
    split at h
    · rename_i hmark
      simp only at h
      split at h
      · cases h
      · rename_i hd
        cases h
        exact ⟨mark, r, rfl, hmark, by simpa using hd, rfl, rfl⟩
    · cases h

theorem exponent_split {cs text rest : List Char} (h : exponent cs = some (text, rest)) :
    text ++ rest = cs := by
  obtain ⟨mark, r, rfl, _, _, rfl, rfl⟩ := exponent_some h
  have hd := List.takeWhile_append_dropWhile (p := isDigit) (l := (sign r).2)
  simp only [List.cons_append, List.append_assoc]
  rw [hd, sign_split]

theorem decimal_split (cs : List Char) : (decimal cs).text ++ (decimal cs).rest = cs := by
  have hm := mantissa_split cs
  unfold decimal
  simp only
  split
  · exact hm
  · rename_i heq
    rw [List.append_assoc, exponent_split heq, hm]

/-- A numeral is hexadecimal behind its mark, with a digit at least, and else decimal. -/
theorem numeral_ok {cs : List Char} {n : Numeral} (h : numeral cs = .ok n) :
    (hexMark cs = none ∧ n = decimal cs) ∨
    ∃ x r, cs = '0' :: x :: r ∧ (x = 'x' ∨ x = 'X') ∧ r.takeWhile isHexDigit ≠ [] ∧
      n = ⟨.hex, '0' :: x :: r.takeWhile isHexDigit, r.dropWhile isHexDigit⟩ := by
  unfold numeral at h
  split at h
  · rename_i hnone
    cases h
    exact Or.inl ⟨hnone, rfl⟩
  · rename_i mark r hsome
    simp only at h
    split at h
    · cases h
    · rename_i hd
      cases h
      unfold hexMark at hsome
      split at hsome
      · split at hsome
        · rename_i hx
          cases hsome
          exact Or.inr ⟨_, _, rfl, hx, by simpa using hd, rfl⟩
        · cases hsome
      · cases hsome

theorem numeral_split {cs : List Char} {n : Numeral} (h : numeral cs = .ok n) :
    n.text ++ n.rest = cs := by
  rcases numeral_ok h with ⟨_, rfl⟩ | ⟨x, r, rfl, _, _, rfl⟩
  · exact decimal_split cs
  · simp [List.takeWhile_append_dropWhile]

/-- A suffix is one of the two marks, or it is missing where neither stands. -/
theorem suffix_ok {n m : Numeral} (h : suffix n = .ok m) :
    (∃ r, n.rest = 'L' :: r ∧ m = ⟨n.form, n.text ++ ['L'], r⟩) ∨
    (∃ r, n.rest = 'i' :: r ∧ m = ⟨.complex, n.text ++ ['i'], r⟩) ∨
    ((∀ c ∈ n.rest.head?, c ≠ 'L' ∧ c ≠ 'i') ∧ m = n) := by
  unfold suffix at h
  split at h
  · cases h
  · cases h
  · rename_i r _ heq; cases h; exact Or.inl ⟨r, heq, rfl⟩
  · rename_i r _ heq; cases h; exact Or.inr (Or.inl ⟨r, heq, rfl⟩)
  · rename_i hL hi
    cases h
    refine Or.inr (Or.inr ⟨fun c hc => ?_, rfl⟩)
    obtain ⟨r, hr⟩ := List.head?_eq_some_iff.mp hc
    exact ⟨fun e => hL r (by rw [hr, e]), fun e => hi r (by rw [hr, e])⟩

theorem suffix_split {n m : Numeral} (h : suffix n = .ok m) :
    m.text ++ m.rest = n.text ++ n.rest := by
  rcases suffix_ok h with ⟨r, hr, rfl⟩ | ⟨r, hr, rfl⟩ | ⟨_, rfl⟩
  · simp [hr]
  · simp [hr]
  · rfl

theorem symbol_split {cs text : List Char} {kind : TokenKind}
    (h : symbols.find? (fun s => s.1.isPrefixOf cs) = some (text, kind)) :
    text ++ cs.drop text.length = cs := by
  have hp := List.find?_some h
  obtain ⟨rest, hrest⟩ := List.isPrefixOf_iff_prefix.mp hp
  simp [← hrest]

/-- **What is read, followed by what is left, is what was there.** -/
theorem scan_split {cs : List Char} {l : Lexeme} (h : scan cs = .ok l) : l.text ++ l.rest = cs := by
  cases reading_of_scan h with
  | eof => rfl
  | newline cs => rfl
  | comment cs => exact List.takeWhile_append_dropWhile
  | string _ hb => rw [List.cons_append, untilClose_split hb]
  | quotedIdent hb => rw [List.cons_append, untilClose_split hb]
  | @special cs rest hr =>
      have hs := List.takeWhile_append_dropWhile (p := isSpecialChar) (l := cs)
      rw [hr] at hs
      simpa using hs
  | number _ hn hm _ => rw [suffix_split hm, numeral_split hn]
  | word _ => exact nameRun_append_afterNameRun _
  | symbol _ hf => exact symbol_split hf

/-! ## What is read is not empty -/

/-- Where a numeral starts, its mantissa takes the digit, or the point and the digit behind it. -/
theorem mantissa_text_ne_nil {c : Char} {cs : List Char} (h : lead (c :: cs) = .number) :
    (mantissa (c :: cs)).text ≠ [] := by
  have hc : isDigit c = true ∨ c = '.' ∧ startsWithDigit cs = true := by
    have ha := announces_lead c cs
    rw [h] at ha
    cases ha with
    | number hc => exact hc
  unfold mantissa
  split
  · simp
  · rename_i hne
    rcases hc with hd | ⟨rfl, _⟩
    · simp [hd]
    · exact absurd rfl (hne cs)

theorem numeral_text_ne_nil {c : Char} {cs : List Char} {n : Numeral}
    (hl : lead (c :: cs) = .number) (hn : numeral (c :: cs) = .ok n) : n.text ≠ [] := by
  rcases numeral_ok hn with ⟨_, rfl⟩ | ⟨x, r, _, _, _, rfl⟩
  · have hm := mantissa_text_ne_nil hl
    unfold decimal
    simp only
    split <;> simp [hm]
  · simp

theorem symbols_text_ne_nil : ∀ s ∈ symbols, s.1 ≠ [] := by decide

/-- A name may go on with what it may start with. -/
theorem inName_of_startsName {c : Char} (h : startsName c = true) : inName c = true := by
  simp only [startsName, inName, Bool.or_eq_true] at h ⊢
  rcases h with h | h
  · exact Or.inl (Or.inl (Or.inl h))
  · exact Or.inl (Or.inr h)

theorem startsName_of_lead {c : Char} {cs : List Char} (h : lead (c :: cs) = .word) :
    startsName c = true := by
  have ha := announces_lead c cs
  rw [h] at ha
  cases ha with
  | word hc => exact hc

/-- Every token but the end of the input takes a character. -/
theorem scan_text_ne_nil {cs : List Char} {l : Lexeme} (h : scan cs = .ok l) (hk : l.kind ≠ .eof) :
    l.text ≠ [] := by
  cases reading_of_scan h with
  | eof => exact absurd rfl hk
  | newline | string | quotedIdent | special => simp
  | comment => simp [comment]
  | number hl hn hm _ =>
      have hne := numeral_text_ne_nil hl hn
      rcases suffix_ok hm with ⟨r, _, rfl⟩ | ⟨r, _, rfl⟩ | ⟨_, rfl⟩ <;> simp [hne]
  | word hl => simp [word, nameRun, inName_of_startsName (startsName_of_lead hl)]
  | symbol _ hf => exact symbols_text_ne_nil _ (List.mem_of_find?_eq_some hf)

/-! ## The end of the input -/

/-- The kind of a word is that of a reserved word, or else it is a name. -/
theorem wordKind_cases (w : String) :
    wordKind w = .ident ∧ reservedWords.lookup w = none ∨ (w, wordKind w) ∈ reservedWords := by
  unfold wordKind
  cases h : reservedWords.lookup w with
  | none => exact Or.inl ⟨rfl, rfl⟩
  | some k =>
      obtain ⟨l₁, l₂, heq, _⟩ := List.lookup_eq_some_iff.mp h
      exact Or.inr (by rw [heq]; simp)

theorem wordKind_ne_eof (w : String) : wordKind w ≠ .eof := by
  have hall : ∀ r ∈ reservedWords, r.2 ≠ .eof := by decide
  rcases wordKind_cases w with ⟨hw, _⟩ | hw
  · simp [hw]
  · exact hall _ hw

theorem symbols_ne_eof : ∀ s ∈ symbols, s.2 ≠ .eof := by decide

/-- **The end of the input is read only where nothing is left.** -/
theorem scan_eof {cs : List Char} {l : Lexeme} (h : scan cs = .ok l) (hk : l.kind = .eof) :
    cs = [] := by
  cases reading_of_scan h with
  | eof => rfl
  | newline | comment | string | quotedIdent | special | number => cases hk
  | word _ => exact absurd hk (wordKind_ne_eof _)
  | symbol _ hf => exact absurd hk (symbols_ne_eof _ (List.mem_of_find?_eq_some hf))

end RSource.Lexeme
