import Mathlib.Data.List.Find
import Mathlib.Data.List.TakeWhile
import RSource.Proofs.Spelling

/-!
# Tokens that are read again

A token is read again when the text that follows it is cut off somewhere, and what no token goes on
into comes there: a space, a line feed, nothing, or a closing bracket.

* `Gap` — nothing follows, or a space or a line feed does.
* `Boundary` — no token that has begun goes on into what follows.
* `NameEnd`, `NumeralEnd` — what ends a name and a numeral.
* `mantissa_stop`, `decimal_stop`, `numeral_stop`, `suffix_stop` — the parts of a numeral.
* `symbol_stop` — the longest spelling remains the longest.
* `scan_again` — **what is read is read again if the text behind it is cut off by a boundary**.
* `Spells.respace` — **a spelling is read as its token wherever a gap follows**.
-/

namespace RSource.Lexeme

/-- Nothing follows, or a space or a line feed does. -/
def Gap (r : List Char) : Prop := ∀ c ∈ r.head?, c = ' ' ∨ c = '\n'

/-- What ends a name: no character of a name follows. -/
def NameEnd (r : List Char) : Prop := ∀ c ∈ r.head?, inName c = false

/-- What ends a numeral: a suffix, or what ends a name. -/
def NumeralEnd (r : List Char) : Prop := ∀ c ∈ r.head?, c = 'L' ∨ c = 'i' ∨ inName c = false

theorem Gap.nameEnd {r : List Char} (h : Gap r) : NameEnd r := by
  intro c hc
  rcases h c hc with rfl | rfl <;> decide

theorem NameEnd.numeralEnd {r : List Char} (h : NameEnd r) : NumeralEnd r :=
  fun c hc => Or.inr (Or.inr (h c hc))

theorem Gap.cons_space (r : List Char) : Gap (' ' :: r) := by
  intro c hc
  cases hc
  exact Or.inl rfl

theorem Gap.cons_newline (r : List Char) : Gap ('\n' :: r) := by
  intro c hc
  cases hc
  exact Or.inr rfl

theorem Gap.nil : Gap [] := by
  intro c hc
  cases hc

/-! ## Runs of characters -/

theorem run_stop {p : Char → Bool} {r : List Char} (h : ∀ c ∈ r.head?, p c = false) :
    r.takeWhile p = [] ∧ r.dropWhile p = r := by
  cases r with
  | nil => exact ⟨rfl, rfl⟩
  | cons c r => simp [h c rfl]

/-- A run is read to its end. -/
theorem run_of_all {p : Char → Bool} {w r : List Char} (hw : ∀ c ∈ w, p c = true)
    (hr : ∀ c ∈ r.head?, p c = false) :
    (w ++ r).takeWhile p = w ∧ (w ++ r).dropWhile p = r := by
  obtain ⟨ht, hd⟩ := run_stop hr
  rw [List.takeWhile_append_of_pos hw, List.dropWhile_append_of_pos hw, ht, hd]
  exact ⟨List.append_nil _, rfl⟩

/-- A run is read again where it may end. -/
theorem run_append {p : Char → Bool} (cs : List Char) {r : List Char}
    (hr : ∀ c ∈ r.head?, p c = false) :
    (cs.takeWhile p ++ r).takeWhile p = cs.takeWhile p ∧ (cs.takeWhile p ++ r).dropWhile p = r :=
  run_of_all (fun _ => List.mem_takeWhile_imp) hr

/-- Blanks before what is none are those at the front. -/
theorem blanks_append {sp cs : List Char} (hsp : ∀ c ∈ sp, isBlank c = true)
    (hcs : ∀ c ∈ cs.head?, isBlank c = false) :
    blanks (sp ++ cs) = sp ∧ afterBlanks (sp ++ cs) = cs :=
  run_of_all hsp hcs

/-! ## Numerals -/

/-- The letters may stand in a name. -/
theorem inName_of_letter {c : Char} (h : 'A' ≤ c ∧ c ≤ 'Z' ∨ 'a' ≤ c ∧ c ≤ 'z') :
    inName c = true := by
  have halpha : isAlphabetic c = true := by
    rw [isAlphabetic, inRanges_iff alphabeticRanges_isAscending]
    rcases h with ⟨hlo, hhi⟩ | ⟨hlo, hhi⟩
    · exact ⟨(0x41, 0x5A), by decide, hlo, hhi⟩
    · exact ⟨(0x61, 0x7A), by decide, hlo, hhi⟩
  simp [inName, halpha]

/-- So may the digits. -/
theorem inName_of_isDigit {c : Char} (h : isDigit c = true) : inName c = true := by
  simp only [isDigit, Bool.and_eq_true, decide_eq_true_eq] at h
  have hnum : isNumeric c = true := by
    rw [isNumeric, inRanges_iff numericRanges_isAscending]
    exact ⟨(0x30, 0x39), by decide, h⟩
  simp [inName, hnum]

theorem inName_of_isHexDigit {c : Char} (h : isHexDigit c = true) : inName c = true := by
  simp only [isHexDigit, Bool.or_eq_true, Bool.and_eq_true, decide_eq_true_eq] at h
  rcases h with (h | ⟨hlo, hhi⟩) | ⟨hlo, hhi⟩
  · exact inName_of_isDigit h
  · exact inName_of_letter (Or.inr ⟨hlo, Char.le_trans hhi (by decide)⟩)
  · exact inName_of_letter (Or.inl ⟨hlo, Char.le_trans hhi (by decide)⟩)

/-- A numeral ends before no character of a name but its suffix. -/
theorem NumeralEnd.stops {p : Char → Bool} {r : List Char} (h : NumeralEnd r)
    (hp : ∀ c, p c = true → inName c = true) (hL : p 'L' = false) (hi : p 'i' = false) :
    ∀ c ∈ r.head?, p c = false := by
  intro c hc
  rcases h c hc with rfl | rfl | hn
  · exact hL
  · exact hi
  · cases hpc : p c with
    | false => rfl
    | true => rw [hp c hpc] at hn; exact hn

theorem NumeralEnd.not_digit {r : List Char} (h : NumeralEnd r) :
    ∀ c ∈ r.head?, isDigit c = false :=
  h.stops (fun _ => inName_of_isDigit) (by decide) (by decide)

theorem NumeralEnd.not_hexDigit {r : List Char} (h : NumeralEnd r) :
    ∀ c ∈ r.head?, isHexDigit c = false :=
  h.stops (fun _ => inName_of_isHexDigit) (by decide) (by decide)

/-- A numeral ends before no character of a name but its suffix. -/
theorem NumeralEnd.ne {r : List Char} (h : NumeralEnd r) {d : Char} (hd : inName d = true)
    (hL : 'L' ≠ d) (hi : 'i' ≠ d) : ∀ c ∈ r.head?, c ≠ d := by
  rintro c hc rfl
  rcases h c hc with rfl | rfl | hn
  · exact hL rfl
  · exact hi rfl
  · rw [hd] at hn
    cases hn

theorem mantissa_point {cs rest : List Char} (h : cs.dropWhile isDigit = '.' :: rest) :
    mantissa cs = ⟨.float, cs.takeWhile isDigit ++ '.' :: rest.takeWhile isDigit,
      rest.dropWhile isDigit⟩ := by
  unfold mantissa
  rw [h]
  rfl

theorem mantissa_plain {cs : List Char} (h : ∀ c ∈ (cs.dropWhile isDigit).head?, c ≠ '.') :
    mantissa cs = ⟨.integer, cs.takeWhile isDigit, cs.dropWhile isDigit⟩ := by
  unfold mantissa
  split
  · rename_i heq
    rw [heq] at h
    exact absurd rfl (h '.' rfl)
  · rfl

/-- A mantissa is read again where neither a digit nor a point follows. -/
theorem mantissa_stop {cs r : List Char} (hd : ∀ c ∈ r.head?, isDigit c = false)
    (hp : ∀ c ∈ r.head?, c ≠ '.') :
    mantissa ((mantissa cs).text ++ r) = ⟨(mantissa cs).form, (mantissa cs).text, r⟩ := by
  by_cases hcs : ∃ rest, cs.dropWhile isDigit = '.' :: rest
  case neg =>
    have hplain : ∀ c ∈ (cs.dropWhile isDigit).head?, c ≠ '.' := by
      rintro c hc rfl
      exact hcs (List.head?_eq_some_iff.mp hc)
    have hrun := run_append cs hd
    rw [mantissa_plain hplain]
    simp only
    rw [mantissa_plain (by rwa [hrun.2]), hrun.1, hrun.2]
  case pos =>
    obtain ⟨rest, hrest⟩ := hcs
    have hpoint : ∀ c ∈ ('.' :: (rest.takeWhile isDigit ++ r)).head?, isDigit c = false :=
      fun c hc => by cases hc; decide
    have hrun := run_append cs hpoint
    have hfrac := run_append rest hd
    rw [mantissa_point hrest]
    simp only [List.append_assoc, List.cons_append]
    rw [mantissa_point hrun.2, hrun.1, hfrac.1, hfrac.2]

theorem sign_of_digit {ds r : List Char} (hne : ds ≠ []) (hd : ∀ c ∈ ds, isDigit c = true) :
    sign (ds ++ r) = ([], ds ++ r) := by
  obtain ⟨d, ds, rfl⟩ := List.exists_cons_of_ne_nil hne
  have hdigit := hd d (List.mem_cons_self ..)
  unfold sign
  split
  · rename_i heq
    cases heq
    exact absurd hdigit (by decide)
  · rename_i heq
    cases heq
    exact absurd hdigit (by decide)
  · rfl

/-- A sign before a digit is read again. -/
theorem sign_append (cs : List Char) {ds r : List Char} (hne : ds ≠ [])
    (hd : ∀ c ∈ ds, isDigit c = true) :
    sign ((sign cs).1 ++ (ds ++ r)) = ((sign cs).1, ds ++ r) := by
  have hs : (sign cs).1 = ['+'] ∨ (sign cs).1 = ['-'] ∨ (sign cs).1 = [] := by
    unfold sign
    split <;> simp
  have h := sign_of_digit (r := r) hne hd
  rcases hs with hs | hs | hs <;> rw [hs]
  · rfl
  · rfl
  · exact h

theorem exponent_stop {cs text rest r : List Char} (h : exponent cs = some (text, rest))
    (hd : ∀ c ∈ r.head?, isDigit c = false) : exponent (text ++ r) = some (text, r) := by
  obtain ⟨mark, cs', rfl, hmark, hne, rfl, rfl⟩ := exponent_some h
  have hrun := run_append (sign cs').2 hd
  have hs := sign_append (r := r) cs' hne (fun _ => List.mem_takeWhile_imp)
  simp only [List.cons_append, List.append_assoc, exponent, if_pos hmark, hs, hrun.1, hrun.2]
  rw [if_neg (by simpa using hne)]

theorem exponent_none_of_head {r : List Char} (h : ∀ c ∈ r.head?, c ≠ 'e' ∧ c ≠ 'E') :
    exponent r = none := by
  cases r with
  | nil => rfl
  | cons c r =>
      have hc := h c rfl
      rw [exponent, if_neg (by rintro (rfl | rfl) <;> simp at hc)]

theorem NumeralEnd.exponent_none {r : List Char} (hr : NumeralEnd r) : exponent r = none :=
  exponent_none_of_head fun c hc =>
    ⟨hr.ne (by decide) (by decide) (by decide) c hc, hr.ne (by decide) (by decide) (by decide) c hc⟩

/-- A decimal numeral is read again where it may end. -/
theorem decimal_stop {cs r : List Char} (hr : NumeralEnd r) :
    decimal ((decimal cs).text ++ r) = ⟨(decimal cs).form, (decimal cs).text, r⟩ := by
  have hpoint := hr.ne (d := '.') (by decide) (by decide) (by decide)
  unfold decimal
  simp only
  cases he : exponent (mantissa cs).rest with
  | none =>
      simp only [mantissa_stop hr.not_digit hpoint, hr.exponent_none]
  | some p =>
      obtain ⟨text, rest⟩ := p
      obtain ⟨mark, cs', hcs, hm, hne, htext, _⟩ := exponent_some he
      have hhead : ∀ c ∈ (text ++ r).head?, isDigit c = false ∧ c ≠ '.' := by
        intro c hc
        rw [htext] at hc
        cases hc
        rcases hm with rfl | rfl <;> decide
      simp only [List.append_assoc, mantissa_stop (fun c hc => (hhead c hc).1)
        (fun c hc => (hhead c hc).2), exponent_stop he hr.not_digit]

/-- No hexadecimal numeral starts where a decimal one was read. -/
theorem hexMark_none_append {w rest r : List Char} (hne : w ≠ []) (h : hexMark (w ++ rest) = none)
    (hr : NumeralEnd r) : hexMark (w ++ r) = none := by
  obtain ⟨a, w, rfl⟩ := List.exists_cons_of_ne_nil hne
  cases w with
  | cons b w =>
      by_cases ha : a = '0'
      · subst ha
        simp only [List.cons_append, hexMark] at h ⊢
        split at h
        · cases h
        · rename_i hb
          rw [if_neg hb]
      · simp [hexMark, ha]
  | nil =>
      simp only [List.cons_append, List.nil_append]
      unfold hexMark
      split
      · rename_i x r' heq
        cases heq
        rw [if_neg]
        rintro (rfl | rfl)
        · exact hr.ne (d := 'x') (by decide) (by decide) (by decide) _ rfl rfl
        · exact hr.ne (d := 'X') (by decide) (by decide) (by decide) _ rfl rfl
      · rfl

/-- A numeral is read again where it may end. -/
theorem numeral_stop {cs r : List Char} {n : Numeral} (h : numeral cs = .ok n) (hne : n.text ≠ [])
    (hr : NumeralEnd r) : numeral (n.text ++ r) = .ok ⟨n.form, n.text, r⟩ := by
  have hsplit := numeral_split h
  rcases numeral_ok h with ⟨hnone, rfl⟩ | ⟨x, cs', _, hx, hd, rfl⟩
  · rw [← hsplit] at hnone
    rw [numeral, hexMark_none_append hne hnone hr]
    exact congrArg Except.ok (decimal_stop hr)
  · have hrun := run_append cs' hr.not_hexDigit
    have hmark : hexMark ('0' :: x :: (cs'.takeWhile isHexDigit ++ r)) =
        some (['0', x], cs'.takeWhile isHexDigit ++ r) := by
      rw [hexMark, if_pos hx]
    simp only [List.cons_append, numeral, hmark, hrun.1, hrun.2]
    rw [if_neg (by simpa using hd)]
    rfl

/-- A numeral with its suffix is read again where a name may end. -/
theorem suffix_stop {cs r : List Char} {n m : Numeral} (hn : numeral cs = .ok n) (hne : n.text ≠ [])
    (hm : suffix n = .ok m) (hr : NameEnd r) :
    ∃ n', numeral (m.text ++ r) = .ok n' ∧ suffix n' = .ok ⟨m.form, m.text, r⟩ := by
  have hnot : ∀ c ∈ r.head?, c ≠ 'L' ∧ c ≠ 'i' := by
    intro c hc
    have hname := hr c hc
    constructor <;>
    · rintro rfl
      cases hname
  rcases suffix_ok hm with ⟨r', _, rfl⟩ | ⟨r', _, rfl⟩ | ⟨_, rfl⟩
  · have hstop : NumeralEnd ('L' :: r) := fun c hc => by cases hc; exact Or.inl rfl
    refine ⟨⟨n.form, n.text, 'L' :: r⟩, by simpa using numeral_stop hn hne hstop, ?_⟩
    unfold suffix
    split <;> rename_i heq
    · cases heq; exact absurd rfl (hnot _ rfl).2
    · cases heq
    · cases heq; rfl
    · cases heq
    · rename_i hL
      exact (hL r rfl).elim
  · have hstop : NumeralEnd ('i' :: r) := fun c hc => by cases hc; exact Or.inr (Or.inl rfl)
    refine ⟨⟨n.form, n.text, 'i' :: r⟩, by simpa using numeral_stop hn hne hstop, ?_⟩
    unfold suffix
    split <;> rename_i heq
    · cases heq
    · cases heq; exact absurd rfl (hnot _ rfl).1
    · cases heq
    · cases heq; rfl
    · exact (heq r rfl).elim
  · refine ⟨⟨m.form, m.text, r⟩, numeral_stop hn hne hr.numeralEnd, ?_⟩
    unfold suffix
    split <;> rename_i heq
    · simp only at heq; subst heq; exact absurd rfl (hnot _ rfl).1
    · simp only at heq; subst heq; exact absurd rfl (hnot _ rfl).2
    · simp only at heq; subst heq; exact absurd rfl (hnot _ rfl).1
    · simp only at heq; subst heq; exact absurd rfl (hnot _ rfl).2
    · rfl

/-! ## Symbols -/

/-- No token that has begun goes on into what follows. -/
structure Boundary (r : List Char) : Prop where
  nameEnd : NameEnd r
  symbol : ∀ s ∈ symbols, ∀ c ∈ r.head?, c ∉ s.1.tail

theorem Gap.boundary {r : List Char} (h : Gap r) : Boundary r := by
  refine ⟨h.nameEnd, fun s hs c hc => ?_⟩
  have hall : ∀ s ∈ symbols, ' ' ∉ s.1.tail ∧ '\n' ∉ s.1.tail := by decide
  rcases h c hc with rfl | rfl
  · exact (hall s hs).1
  · exact (hall s hs).2

theorem Boundary.cons_rbracket (r : List Char) : Boundary (']' :: r) := by
  have hall : ∀ s ∈ symbols, ']' ∉ s.1.tail := by decide
  refine ⟨fun c hc => ?_, fun s hs c hc => ?_⟩ <;> cases hc
  · decide
  · exact hall s hs

theorem isPrefixOf_stop {sym text r : List Char} (h : ∀ c ∈ r.head?, c ∉ sym) :
    sym.isPrefixOf (text ++ r) = sym.isPrefixOf text := by
  induction sym generalizing text with
  | nil => simp
  | cons a sym ih =>
      have hrest : ∀ c ∈ r.head?, c ∉ sym := fun c hc hmem => h c hc (List.mem_cons_of_mem _ hmem)
      cases text with
      | cons b text => simp [List.isPrefixOf, ih hrest]
      | nil =>
          cases r with
          | nil => rfl
          | cons b r =>
              have hab : (a == b) = false := by
                rw [beq_eq_false_iff_ne]
                rintro rfl
                exact h a rfl (List.mem_cons_self ..)
              simp [List.isPrefixOf, hab]

/-- No spelling goes on into a boundary. -/
theorem Boundary.isPrefixOf {r text : List Char} {s : List Char × TokenKind} (h : Boundary r)
    (hs : s ∈ symbols) (ht : text ≠ []) : s.1.isPrefixOf (text ++ r) = s.1.isPrefixOf text := by
  obtain ⟨b, text, rfl⟩ := List.exists_cons_of_ne_nil ht
  obtain ⟨a, sym, ha⟩ := List.exists_cons_of_ne_nil (symbols_text_ne_nil s hs)
  have hstop := h.symbol s hs
  rw [ha, List.tail_cons] at hstop
  rw [ha, List.cons_append, List.isPrefixOf, List.isPrefixOf, isPrefixOf_stop hstop]

/-- The longest spelling remains the longest. -/
theorem symbol_stop {cs v post z : List Char} {s : List Char × TokenKind}
    (h : symbols.find? (fun t => t.1.isPrefixOf cs) = some s) (hcs : cs = s.1 ++ (v ++ post))
    (hz : Boundary z) : symbol? (s.1 ++ (v ++ z)) = some ⟨s.2, s.1, v ++ z⟩ := by
  obtain ⟨-, before, after, hsymbols, hlonger⟩ := List.find?_eq_some_iff_append.mp h
  have hspelled : s.1.isPrefixOf (s.1 ++ (v ++ z)) = true :=
    List.isPrefixOf_iff_prefix.mpr (List.prefix_append _ _)
  have hf : symbols.find? (fun t => t.1.isPrefixOf (s.1 ++ (v ++ z))) = some s := by
    refine List.find?_eq_some_iff_append.mpr ⟨hspelled, before, after, hsymbols, fun t ht => ?_⟩
    have hmem : t ∈ symbols := by rw [hsymbols]; exact List.mem_append_left _ ht
    have hne : s.1 ++ v ≠ [] := by
      simp [symbols_text_ne_nil s (List.mem_of_find?_eq_some h)]
    -- A longer spelling would stand before the boundary, and so in the text before it was cut off.
    rw [← List.append_assoc, hz.isPrefixOf hmem hne]
    have hnot := hlonger t ht
    simp only [Bool.not_eq_true', Bool.eq_false_iff, ne_eq, List.isPrefixOf_iff_prefix] at hnot ⊢
    intro hp
    rw [hcs, ← List.append_assoc] at hnot
    exact hnot (hp.trans (List.prefix_append _ _))
  rw [symbol?, hf]
  simp

/-! ## What announces a token -/

/-- Behind a point the next character decides, behind all others none does. -/
theorem lead_congr {c : Char} {cs ds : List Char}
    (h : c = '.' → startsWithDigit cs = startsWithDigit ds) : lead (c :: cs) = lead (c :: ds) := by
  simp only [lead]
  by_cases hc : c = '.'
  · rw [h hc]
  · simp only [hc, false_and]

theorem startsWithDigit_append {w : List Char} (h : w ≠ []) (r r' : List Char) :
    startsWithDigit (w ++ r) = startsWithDigit (w ++ r') := by
  obtain ⟨d, w, rfl⟩ := List.exists_cons_of_ne_nil h
  rfl

theorem startsWithDigit_stop {r : List Char} (h : NameEnd r) : startsWithDigit r = false := by
  cases r with
  | nil => rfl
  | cons c r => exact h.numeralEnd.not_digit c rfl

/-- A numeral that starts with a point goes on with a digit. -/
theorem mantissa_point_text {cs : List Char} (h : startsWithDigit cs = true) :
    ∃ d w, (mantissa ('.' :: cs)).text = '.' :: d :: w := by
  have hpoint : isDigit '.' = false := by decide
  cases cs with
  | nil => cases h
  | cons d cs =>
      have hd : isDigit d = true := h
      have hdrop : ('.' :: d :: cs).dropWhile isDigit = '.' :: d :: cs := by simp [hpoint]
      rw [mantissa_point hdrop]
      simp [hpoint, hd]

theorem decimal_point_text {cs : List Char} (h : startsWithDigit cs = true) :
    ∃ d w, (decimal ('.' :: cs)).text = '.' :: d :: w := by
  obtain ⟨d, w, hm⟩ := mantissa_point_text h
  unfold decimal
  simp only
  split
  · exact ⟨d, w, hm⟩
  · simp [hm]

/-- What announces a numeral announces it again. -/
theorem lead_number {c : Char} {cs r : List Char} {n m : Numeral} (hl : lead (c :: cs) = .number)
    (hn : numeral (c :: cs) = .ok n) (hm : suffix n = .ok m) :
    ∃ w, m.text = c :: w ∧ lead (c :: (w ++ r)) = .number := by
  have hsplit : m.text ++ m.rest = c :: cs := by rw [suffix_split hm, numeral_split hn]
  have hne : n.text ≠ [] := numeral_text_ne_nil hl hn
  have hmtext : ∃ v, m.text = n.text ++ v := by
    rcases suffix_ok hm with ⟨_, _, rfl⟩ | ⟨_, _, rfl⟩ | ⟨_, rfl⟩
    · exact ⟨_, rfl⟩
    · exact ⟨_, rfl⟩
    · exact ⟨[], by simp⟩
  obtain ⟨v, hv⟩ := hmtext
  have hmne : m.text ≠ [] := by simp [hv, hne]
  obtain ⟨c', w, hw⟩ := List.exists_cons_of_ne_nil hmne
  rw [hw] at hsplit
  simp only [List.cons_append, List.cons.injEq] at hsplit
  obtain ⟨rfl, rfl⟩ := hsplit
  refine ⟨w, hw, ?_⟩
  rw [← hl]
  refine lead_congr ?_
  rintro rfl
  have hdigit : startsWithDigit (w ++ m.rest) = true := by
    have ha := announces_lead '.' (w ++ m.rest)
    rw [hl] at ha
    cases ha with
    | number hc => exact (hc.resolve_left (by decide)).2
  have htext : ∃ d u, n.text = '.' :: d :: u := by
    rcases numeral_ok hn with ⟨_, rfl⟩ | ⟨x, r', h0, _⟩
    · exact decimal_point_text hdigit
    · cases h0
  obtain ⟨d, u, hu⟩ := htext
  rw [hv, hu] at hw
  cases hw
  rfl

/-! ## All tokens -/

theorem untilClose_append {mark : Char} {esc : Bool} {cs text rest : List Char} (r : List Char)
    (h : untilClose mark esc cs = some (text, rest)) :
    untilClose mark esc (text ++ r) = some (text, r) := by
  induction cs generalizing esc text with
  | nil => cases h
  | cons c cs ih =>
      rw [untilClose] at h
      split at h
      · rename_i hc
        cases h
        rw [List.cons_append, untilClose, if_pos hc]
        rfl
      · rename_i hc
        split at h
        · cases h
        · rename_i heq
          cases h
          rw [List.cons_append, untilClose, if_neg hc, ih heq]

theorem word_stop {c : Char} {cs r : List Char} (hl : lead (c :: cs) = .word) (hr : NameEnd r) :
    scan ((word (c :: cs)).text ++ r) = .ok ⟨(word (c :: cs)).kind, (word (c :: cs)).text, r⟩ := by
  have hc := inName_of_startsName (startsName_of_lead hl)
  have hrun := run_append (c :: cs) hr
  have htext : nameRun (c :: cs) = c :: nameRun cs := by simp [nameRun, hc]
  have hlead : lead (c :: (nameRun cs ++ r)) = .word := by
    rw [← hl]
    refine lead_congr ?_
    rintro rfl
    by_cases hnil : nameRun cs = []
    · rw [hnil, List.nil_append, startsWithDigit_stop hr]
      -- A digit behind the point would have announced a numeral.
      cases hd : startsWithDigit cs with
      | false => rfl
      | true => simp [lead, hd] at hl
    · have hsplit := startsWithDigit_append hnil r (afterNameRun cs)
      rwa [nameRun_append_afterNameRun] at hsplit
  simp only [word]
  rw [htext, List.cons_append, scan, hlead]
  simp only [word]
  rw [← List.cons_append, ← htext]
  simp only [nameRun, afterNameRun] at hrun ⊢
  rw [hrun.1, hrun.2]

/-- What no run goes on with does not change where the text is cut off by what no run goes on
with. -/
theorem head_cut {p : Char → Bool} {v post z : List Char}
    (h : ∀ c ∈ (v ++ post).head?, p c = false) (hz : ∀ c ∈ z.head?, p c = false) :
    ∀ c ∈ (v ++ z).head?, p c = false := by
  cases v with
  | nil => exact hz
  | cons a v => exact h

/-- A run of other characters than line feeds ends at a line feed. -/
theorem comment_rest (cs : List Char) :
    ∀ c ∈ (comment cs).rest.head?, (c != '\n') = false := by
  intro c hc
  have hd := List.head?_dropWhile_not (· != '\n') cs
  rw [show cs.dropWhile (· != '\n') = (comment cs).rest from rfl, hc] at hd
  simpa using hd

theorem nameEnd_afterNameRun (cs : List Char) : NameEnd (afterNameRun cs) := by
  intro c hc
  have hd := List.head?_dropWhile_not inName cs
  rw [← afterNameRun, hc] at hd
  simpa using hd

theorem nameEnd_of_run {r : List Char} (h : nameRun r = []) : NameEnd r := by
  cases r with
  | nil => exact fun c hc => by cases hc
  | cons a r =>
      intro c hc
      cases hc
      cases ha : inName a with
      | false => rfl
      | true => simp [nameRun, ha] at h

/-- **What is read is read again if the text behind it is cut off by a boundary**, for a comment by
a line feed. -/
theorem scan_again {cs v post z : List Char} {l : Lexeme} (h : Reading cs l)
    (hl : l.rest = v ++ post) (hz : Boundary z) (hc : l.kind = .comment → ∀ c ∈ z.head?, c = '\n')
    (he : l.kind ≠ .eof) : scan (l.text ++ (v ++ z)) = .ok ⟨l.kind, l.text, v ++ z⟩ := by
  cases h with
  | eof => exact absurd rfl he
  | newline cs => rfl
  | comment cs =>
      have hrest := comment_rest ('#' :: cs)
      rw [hl] at hrest
      have hline : ∀ c ∈ (v ++ z).head?, (c != '\n') = false :=
        head_cut hrest fun c hmem => by simp [hc rfl c hmem]
      have hrun := run_append cs hline
      simp [scan, lead, comment, hrun.1, hrun.2]
  | @string mark cs body rest hm hb =>
      rcases hm with rfl | rfl
      · simp [scan, lead, delimited, untilClose_append _ hb]
      · simp [scan, lead, delimited, untilClose_append _ hb]
  | quotedIdent hb => simp [scan, lead, delimited, untilClose_append _ hb]
  | @special cs rest hs =>
      have hclose : ∀ c ∈ ('%' :: (v ++ z)).head?, isSpecialChar c = false :=
        fun c hc => by cases hc; decide
      have hrun := run_append cs hclose
      simp [scan, lead, specialOp, hrun.1, hrun.2]
  | @number c cs n m hlead hn hm hrest =>
      have hrest := nameEnd_of_run hrest
      rw [show m.rest = v ++ post from hl] at hrest
      have hend : NameEnd (v ++ z) := head_cut hrest hz.nameEnd
      obtain ⟨n', hn', hm'⟩ := suffix_stop hn (numeral_text_ne_nil hlead hn) hm hend
      obtain ⟨w, hw, hlead'⟩ := lead_number (r := v ++ z) hlead hn hm
      simp only
      rw [hw, List.cons_append] at hn'
      rw [hw, List.cons_append, scan, hlead']
      simp only [number, hn', hm', endNumeral, nameRun, (run_stop hend).1]
      simp [hw]
  | @word c cs hlead =>
      have hrest := nameEnd_afterNameRun (c :: cs)
      rw [show afterNameRun (c :: cs) = v ++ post from hl] at hrest
      exact word_stop hlead (head_cut hrest hz.nameEnd)
  | @symbol c cs text kind hlead hf =>
      have hmem := List.mem_of_find?_eq_some hf
      have hsplit := symbol_split hf
      simp only at hl
      rw [hl] at hsplit
      have hsym := symbol_stop hf hsplit.symm hz
      obtain ⟨c', w, rfl⟩ := List.exists_cons_of_ne_nil (symbols_text_ne_nil _ hmem)
      simp only [List.cons_append, List.cons.injEq] at hsplit
      obtain ⟨rfl, _⟩ := hsplit
      have hlead' : lead (c' :: (w ++ (v ++ z))) = .symbol c' := by
        rw [← hlead]
        refine lead_congr ?_
        rintro rfl
        have hpoint : ∀ s ∈ symbols, s.1.head? ≠ some '.' := by decide
        exact absurd rfl (hpoint _ hmem)
      simp only [List.cons_append] at hsym ⊢
      rw [scan, hlead']
      simp only [hsym]

/-- A spelling is read as its token wherever a gap follows, a comment where its line ends. -/
theorem Spells.read_again {kind : TokenKind} {text r : List Char} (h : Spells kind text)
    (hr : Gap r) (hc : kind = .comment → ∀ c ∈ r.head?, c = '\n') (he : kind ≠ .eof) :
    scan (text ++ r) = .ok ⟨kind, text, r⟩ := by
  obtain ⟨cs, l, hreading, rfl, rfl⟩ := h.reading
  exact scan_again (v := []) hreading rfl hr.boundary hc he

/-- **A spelling is read as its token wherever a gap follows.** -/
theorem Spells.respace {kind : TokenKind} {text r : List Char} (h : Spells kind text)
    (hc : kind ≠ .comment) (he : kind ≠ .eof) (hr : Gap r) :
    scan (text ++ r) = .ok ⟨kind, text, r⟩ :=
  h.read_again hr (fun hcomment => absurd hcomment hc) he

/-- A closing bracket is read whatever follows it. -/
theorem scan_rbracket (r : List Char) : scan (']' :: r) = .ok ⟨.rbracket, [']'], r⟩ := by
  have hlead : lead (']' :: r) = .symbol ']' := by
    have hc : lead (']' :: r) = lead (']' :: []) := lead_congr (fun h => absurd h (by decide))
    rw [hc]
    decide
  have hsym : symbol? (']' :: r) = some ⟨.rbracket, [']'], r⟩ := by
    simp [symbol?, symbols, List.find?, List.isPrefixOf]
  rw [scan, hlead]
  simp only [hsym]

end RSource.Lexeme
