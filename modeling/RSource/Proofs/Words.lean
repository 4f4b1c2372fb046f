import RSource.Proofs.Anchors
import RSource.Proofs.LongestMatch
import RSource.Proofs.Numerals
import RSource.Proofs.Probes
import RSource.Proofs.Splicing

/-!
# Words

Numeric constants, names and reserved words are the words of the language. A word takes all the
characters of a name that follow it, or is a fault that takes them.

* `IsName` — the characters of a name or a reserved word.
* `Lexeme.isName_iff` — a name is announced as one and made of name characters.
* `Lexeme.scan_eq_word_iff` — **a name is read exactly where no character of a name follows one**.
* `StartsNumeric`, `ReadsNumeric` — where no name may start, a numeric constant is read or a fault
  that takes the name characters to their end.
* `TokenKind.IsWord`, `stop_ne_offset` — **no word starts where another one ends**.
* `WordTokens`, `word_tokens` — the words of a text.
-/

namespace RSource

/-- The characters of a name or a reserved word. A name may start with a point, but not with a
point before a digit. -/
inductive IsName : List Char → Prop where
  | mk {c : Char} {cs : List Char} (hc : isAlphabetic c = true ∨ c = '.')
      (hcs : ∀ d ∈ cs, isAlphabetic d = true ∨ isNumeric d = true ∨ d = '.' ∨ d = '_')
      (hpoint : c = '.' → ∀ d ∈ cs.head?, ¬ ('0' ≤ d ∧ d ≤ '9')) : IsName (c :: cs)

/-- The kinds of words: numeric constants, names and reserved words. -/
def TokenKind.IsWord (kind : TokenKind) : Prop :=
  (∃ form, kind = .num form) ∨ kind.category = .identifier ∨ kind.category = .keyword

namespace Lexeme

variable {c : Char} {cs w r : List Char} {kind : TokenKind}

theorem startsName_iff : startsName c = true ↔ isAlphabetic c = true ∨ c = '.' := by
  simp [startsName]

theorem inName_iff :
    inName c = true ↔ isAlphabetic c = true ∨ isNumeric c = true ∨ c = '.' ∨ c = '_' := by
  simp [inName, or_assoc]

theorem startsWithDigit_eq_false_iff :
    startsWithDigit cs = false ↔ ∀ d ∈ cs.head?, ¬ ('0' ≤ d ∧ d ≤ '9') := by
  cases cs <;> simp [startsWithDigit, isDigit]

/-! ## Names -/

/-- A name is announced by a letter, or by a point that no digit follows. -/
theorem lead_eq_word_iff : lead (c :: cs) = .word ↔
    startsName c = true ∧ (c = '.' → startsWithDigit cs = false) := by
  constructor
  · intro h
    refine ⟨startsName_of_lead h, ?_⟩
    rintro rfl
    rw [Bool.eq_false_iff]
    intro hdigit
    rw [lead_eq_number_iff.mpr (.inr ⟨rfl, hdigit⟩)] at h
    cases h
  · rintro ⟨hc, hpoint⟩
    have hdigits : digits.any startsName = false := by decide
    have hdigit : ¬ (isDigit c = true ∨ c = '.' ∧ startsWithDigit cs = true) := by
      rintro (hd | ⟨rfl, hd⟩)
      · exact List.any_eq_false.mp hdigits c (isDigit_iff.mp hd) hc
      · rw [hpoint rfl] at hd
        cases hd
    -- None of the marks that are asked for first may start a name.
    have hmarks : ['\n', '#', '\x22', '\x27', '\x60', '%'].any startsName = false := by decide
    have hnot : c ∉ ['\n', '#', '\x22', '\x27', '\x60', '%'] :=
      fun hmem => List.any_eq_false.mp hmarks c hmem hc
    simp only [List.mem_cons, List.not_mem_nil, or_false, not_or] at hnot
    obtain ⟨hnewline, hcomment, hdouble, hsingle, hquoted, hspecial⟩ := hnot
    rw [lead, if_neg hnewline, if_neg hcomment, if_neg (not_or.mpr ⟨hdouble, hsingle⟩),
      if_neg hquoted, if_neg hspecial, if_neg hdigit, if_pos hc]

/-- A name is announced as one and made of name characters. -/
theorem isName_iff : IsName w ↔ lead w = .word ∧ ∀ d ∈ w, inName d = true := by
  constructor
  · rintro @⟨c, cs, hc, hcs, hpoint⟩
    have hc := startsName_iff.mpr hc
    refine ⟨lead_eq_word_iff.mpr ⟨hc, fun h => startsWithDigit_eq_false_iff.mpr (hpoint h)⟩, ?_⟩
    exact List.forall_mem_cons.mpr ⟨inName_of_startsName hc, fun d hd => inName_iff.mpr (hcs d hd)⟩
  · rintro ⟨hlead, hw⟩
    cases w with
    | nil => cases hlead
    | cons c cs =>
        obtain ⟨hc, hpoint⟩ := lead_eq_word_iff.mp hlead
        refine .mk (startsName_iff.mp hc) (fun d hd => inName_iff.mp (hw d ?_)) fun h => ?_
        · exact List.mem_cons_of_mem c hd
        · exact startsWithDigit_eq_false_iff.mp (hpoint h)

/-- A word is a reserved one by its table, and else a name. -/
theorem wordKind_eq_iff {v : String} :
    wordKind v = kind ↔
      (v, kind) ∈ reservedWords ∨ kind = .ident ∧ ∀ s ∈ reservedWords, s.1 ≠ v := by
  have hkinds : ∀ s ∈ reservedWords, wordKind s.1 = s.2 := by decide
  constructor
  · rintro rfl
    rcases wordKind_cases v with ⟨hkind, hnone⟩ | hmem
    · refine .inr ⟨hkind, fun s hs heq => ?_⟩
      have hne := List.lookup_eq_none_iff.mp hnone s hs
      simp [heq] at hne
    · exact .inl hmem
  · rintro (hmem | ⟨rfl, hne⟩)
    · exact hkinds _ hmem
    · rcases wordKind_cases v with ⟨hkind, -⟩ | hmem
      · exact hkind
      · exact absurd rfl (hne _ hmem)

/-- What no character of a name follows announces the same before it. -/
theorem lead_append (c : Char) (w : List Char) (hr : NameEnd r) :
    lead (c :: (w ++ r)) = lead (c :: w) := by
  refine lead_congr fun _ => ?_
  cases w with
  | nil => exact startsWithDigit_stop hr
  | cons d w => rfl

/-- **A name is read exactly where no character of a name follows one.** -/
theorem scan_eq_word_iff :
    (scan cs = .ok ⟨kind, w, r⟩ ∧ (kind.category = .identifier ∨ kind.category = .keyword)) ↔
      cs = w ++ r ∧ IsName w ∧ NameEnd r ∧ wordKind (String.ofList w) = kind := by
  constructor
  · rintro ⟨h, hkind⟩
    refine ⟨(scan_split h).symm, ?_⟩
    have hreading := reading_of_scan h
    generalize hl : (⟨kind, w, r⟩ : Lexeme) = l at hreading
    cases hreading with
    | eof | newline | comment | string | quotedIdent | special | number =>
        cases hl
        rcases hkind with hkind | hkind <;> cases hkind
    | symbol _ hf =>
        have hsymbol := symbols_category _ (List.mem_of_find?_eq_some hf)
        cases hl
        rcases hsymbol with hsymbol | hsymbol <;> simp [hsymbol] at hkind
    | @word c cs hlead =>
        cases hl
        have hc := inName_of_startsName (startsName_of_lead hlead)
        have hrun : nameRun (c :: cs) = c :: nameRun cs := by simp [nameRun, hc]
        refine ⟨isName_iff.mpr ⟨?_, fun _ => List.mem_takeWhile_imp⟩,
          nameEnd_afterNameRun (c :: cs), rfl⟩
        rw [hrun, ← lead_append c _ (nameEnd_afterNameRun cs), nameRun_append_afterNameRun, hlead]
  · rintro ⟨rfl, hname, hr, rfl⟩
    refine ⟨?_, wordKind_category _⟩
    obtain ⟨hlead, hw⟩ := isName_iff.mp hname
    obtain ⟨hrun, hafter⟩ := run_of_all hw hr
    cases w with
    | nil => cases hlead
    | cons c cs =>
        rw [← lead_append c cs hr] at hlead
        rw [List.cons_append] at hrun hafter ⊢
        rw [scan, hlead]
        simp only [word, nameRun, afterNameRun, hrun, hafter]

/-! ## Words alone -/

/-- A word starts with a character of a name, and no character of a name follows it. -/
theorem word_bounds (h : scan cs = .ok ⟨kind, w, r⟩) (hk : kind.IsWord) :
    (∃ c ∈ w.head?, inName c = true) ∧ NameEnd r := by
  rcases hk with ⟨form, rfl⟩ | hk
  · obtain ⟨-, hnumber, hr⟩ := scan_eq_num_iff.mp h
    refine ⟨?_, hr⟩
    have hlead := hnumber.lead []
    rw [List.append_nil] at hlead
    cases w with
    | nil => cases hlead
    | cons c w =>
        refine ⟨c, rfl, ?_⟩
        rcases lead_eq_number_iff.mp hlead with hc | ⟨rfl, -⟩
        · exact inName_of_isDigit hc
        · rfl
  · obtain ⟨-, hname, hr, -⟩ := scan_eq_word_iff.mp ⟨h, hk⟩
    refine ⟨?_, hr⟩
    obtain ⟨hlead, hw⟩ := isName_iff.mp hname
    cases w with
    | nil => cases hlead
    | cons c w => exact ⟨c, rfl, hw c (List.mem_cons_self ..)⟩

/-- A word is spelled by what is read as that word alone. -/
theorem spells_iff_of_isWord (hk : kind.IsWord) :
    Spells kind w ↔ scan w = .ok ⟨kind, w, []⟩ := by
  constructor
  · refine fun h => h.scan_alone ?_
    rintro rfl
    rcases hk with ⟨form, hk⟩ | hk | hk <;> cases hk
  · intro h
    obtain ⟨⟨c, hc, hname⟩, -⟩ := word_bounds h hk
    refine ⟨fun d hd => ?_, [], by rwa [List.append_nil]⟩
    rw [hc] at hd
    cases hd
    rw [Bool.eq_false_iff]
    intro hblank
    rw [inName_of_blank hblank] at hname
    cases hname

end Lexeme

/-! ## Where no name may start -/

/-- A digit stands in front, or a point before a digit, or an underscore: no name may start so. -/
inductive StartsNumeric : List Char → Prop where
  | digit {c : Char} (hc : '0' ≤ c ∧ c ≤ '9') (cs : List Char) : StartsNumeric (c :: cs)
  | point {d : Char} (hd : '0' ≤ d ∧ d ≤ '9') (cs : List Char) : StartsNumeric ('.' :: d :: cs)
  | underscore (cs : List Char) : StartsNumeric ('_' :: cs)

/-- A probe that starts there reads a numeric constant that no character of a name follows, or is
refused for a lexeme that takes the characters of a name to their end. -/
inductive ReadsNumeric (text : List Char) (k start : Cursor) (rest : List Char) : Prop where
  | token (form : NumKind) (w behind : List Char) (hrest : rest = w ++ behind)
      (hend : ∀ c ∈ behind.head?, Lexeme.inName c = false)
      (hread : tokenAt? text k = some (.ok
        (⟨.num form, String.ofList w, start.loc, start.offset⟩, start.advance w)))
  | fault (lexeme : List Char) (fault : LexFault) (hlexeme : Lexeme.RunsOut rest lexeme)
      (hfault : Lexeme.IsWordFault lexeme fault)
      (hread : tokenAt? text k = some (.error ⟨fault, start.loc⟩))

variable {text rest : List Char} {k k' start : Cursor} {t u : Token}

theorem ProbeStarts.readsNumeric_of_lead (h : ProbeStarts text k start rest)
    (hl : Lexeme.lead rest = .number) : ReadsNumeric text k start rest := by
  have hscan : Lexeme.scan rest = Lexeme.number rest := by rw [Lexeme.scan, hl]
  cases hnumber : Lexeme.number rest with
  | error fault =>
      obtain ⟨lexeme, hlexeme, hfault⟩ := Lexeme.number_error hnumber
      exact .fault lexeme fault hlexeme hfault (h.tokenAt_error (hscan.trans hnumber))
  | ok l =>
      obtain ⟨n, m, -, -, -, rfl⟩ := Lexeme.number_ok hnumber
      have hread := hscan.trans hnumber
      obtain ⟨hrest, -, hend⟩ := Lexeme.scan_eq_num_iff.mp hread
      exact .token m.form m.text m.rest hrest hend (h.tokenAt_ok hread)

/-- **Where no name may start a numeric constant is read, or the name characters are refused.** -/
theorem ProbeStarts.readsNumeric (h : ProbeStarts text k start rest) (hs : StartsNumeric rest) :
    ReadsNumeric text k start rest := by
  cases hs with
  | digit hc cs =>
      refine h.readsNumeric_of_lead (Lexeme.lead_eq_number_iff.mpr (.inl ?_))
      simpa [Lexeme.isDigit] using hc
  | point hd cs =>
      refine h.readsNumeric_of_lead (Lexeme.lead_eq_number_iff.mpr (.inr ⟨rfl, ?_⟩))
      simpa [Lexeme.startsWithDigit, Lexeme.isDigit] using hd
  | underscore cs =>
      have hlead : Lexeme.lead ('_' :: cs) = Lexeme.lead ['_'] :=
        Lexeme.lead_congr fun hc => absurd hc (by decide)
      have hlead : Lexeme.lead ('_' :: cs) = .underscore := hlead.trans rfl
      have hscan : Lexeme.scan ('_' :: cs) =
          .error (.invalidIdentifier (String.ofList (Lexeme.nameRun ('_' :: cs)))) := by
        rw [Lexeme.scan, hlead]
      exact .fault _ _ (.underscore cs) (.inr rfl) (h.tokenAt_error hscan)

example : tokenAt? "f(2Li)".toList ⟨2, ⟨1, 3⟩⟩ = some (.error ⟨.invalidNumber "2Li", ⟨1, 3⟩⟩) := by
  decide +kernel

/-! ## Words side by side -/

/-- A token stands between two parts of its text. -/
theorem exists_split_of_tokenAt {after : Cursor} (h : tokenAt? text k = some (.ok (t, after))) :
    ∃ before l, text = before ++ (l.text ++ l.rest) ∧ Lexeme.scan (l.text ++ l.rest) = .ok l ∧
      t.kind = l.kind ∧ t.offset = (before.flatMap String.utf8EncodeChar).length ∧
      t.stop = ((before ++ l.text).flatMap String.utf8EncodeChar).length := by
  obtain ⟨start, rest, hstarts⟩ := exists_probeStarts h
  obtain ⟨before, htext, hoffset⟩ := hstarts.split
  cases hscan : Lexeme.scan rest with
  | error fault =>
      rw [hstarts.tokenAt_error hscan] at h
      cases h
  | ok l =>
      rw [hstarts.tokenAt_ok hscan] at h
      cases h
      refine ⟨before, l, ?_, ?_, rfl, hoffset, ?_⟩
      · rw [Lexeme.scan_split hscan, htext]
      · rw [Lexeme.scan_split hscan, hscan]
      · rw [Token.stop, Token.bytes, String.toList_ofList, List.flatMap_append, List.length_append,
          ← hoffset]

/-- **No word starts where another one ends**, wherever the two are probed. -/
theorem stop_ne_offset {after after' : Cursor} (ht : tokenAt? text k = some (.ok (t, after)))
    (hu : tokenAt? text k' = some (.ok (u, after'))) (hkt : t.kind.IsWord) (hku : u.kind.IsWord) :
    t.stop ≠ u.offset := by
  obtain ⟨before, l, htext, hscan, hkind, -, hstop⟩ := exists_split_of_tokenAt ht
  obtain ⟨before', l', htext', hscan', hkind', hoffset', -⟩ := exists_split_of_tokenAt hu
  rw [hkind] at hkt
  rw [hkind'] at hku
  intro heq
  rw [htext, ← List.append_assoc] at htext'
  have hrest := rest_eq_of_length htext' (by rw [← hstop, heq, hoffset'])
  obtain ⟨-, hend⟩ := Lexeme.word_bounds hscan hkt
  obtain ⟨⟨c, hc, hname⟩, -⟩ := Lexeme.word_bounds hscan' hku
  have hhead : c ∈ l.rest.head? := by
    rw [hrest, List.head?_append, hc]
    rfl
  rw [hend c hhead] at hname
  cases hname

/-! ## All words of a text -/

/-- The words of a text: which texts are one word, what is read where no name may start, and that
no two words stand side by side. -/
structure WordTokens (text : List Char) : Prop where
  number : ∀ form, IsLexeme (.num form) (text.flatMap String.utf8EncodeChar) ↔
    text ∈ Lexeme.numberPattern.matches' ∧ form = Lexeme.numberForm text
  name : ∀ kind, IsLexeme kind (text.flatMap String.utf8EncodeChar) ∧
      (kind.category = .identifier ∨ kind.category = .keyword) ↔
    IsName text ∧ ((String.ofList text, kind) ∈ Lexeme.reservedWords ∨
      kind = .ident ∧ ∀ s ∈ Lexeme.reservedWords, s.1 ≠ String.ofList text)
  numeric : ∀ k start rest, ProbeStarts text k start rest → StartsNumeric rest →
    ReadsNumeric text k start rest
  /-- Tokens are apart wherever they are probed, and so are those that reading passes. -/
  apart : ∀ k k' t u after after', tokenAt? text k = some (.ok (t, after)) →
    tokenAt? text k' = some (.ok (u, after')) → t.kind.IsWord → u.kind.IsWord → t.stop ≠ u.offset
  passed : ∀ ts r, Reader.Reaches (.ofText text) ts r → ∀ t ∈ ts, ∀ u ∈ ts, t.kind.IsWord →
    u.kind.IsWord → t.stop ≠ u.offset

theorem isLexeme_num_iff {form : NumKind} :
    IsLexeme (.num form) (text.flatMap String.utf8EncodeChar) ↔
      text ∈ Lexeme.numberPattern.matches' ∧ form = Lexeme.numberForm text := by
  rw [isLexeme_iff, Lexeme.spells_iff_of_isWord (.inl ⟨form, rfl⟩), Lexeme.scan_eq_num_iff,
    List.append_nil, ← Lexeme.isNumber_iff]
  constructor
  · rintro ⟨-, -, h, -⟩
    exact h
  · intro h
    exact ⟨by simp, rfl, h, Lexeme.Gap.nil.nameEnd⟩

theorem isLexeme_word_iff {kind : TokenKind} :
    IsLexeme kind (text.flatMap String.utf8EncodeChar) ∧
        (kind.category = .identifier ∨ kind.category = .keyword) ↔
      IsName text ∧ ((String.ofList text, kind) ∈ Lexeme.reservedWords ∨
        kind = .ident ∧ ∀ s ∈ Lexeme.reservedWords, s.1 ≠ String.ofList text) := by
  rw [← Lexeme.wordKind_eq_iff]
  constructor
  · rintro ⟨h, hk⟩
    have hscan := (Lexeme.spells_iff_of_isWord (.inr hk)).mp (isLexeme_iff.mp h).2
    obtain ⟨-, hname, -, hkind⟩ := Lexeme.scan_eq_word_iff.mp ⟨hscan, hk⟩
    exact ⟨hname, hkind⟩
  · rintro ⟨hname, hkind⟩
    obtain ⟨hscan, hk⟩ := Lexeme.scan_eq_word_iff.mpr
      ⟨(List.append_nil text).symm, hname, Lexeme.Gap.nil.nameEnd, hkind⟩
    refine ⟨isLexeme_iff.mpr ⟨?_, (Lexeme.spells_iff_of_isWord (.inr hk)).mpr hscan⟩, hk⟩
    rintro rfl
    rcases hk with hk | hk <;> cases hk

/-- **The words of a text**: the numeric constants are the words of a regular expression and the
names those of the alphabet; a word ends where no character of a name follows, or it is refused. -/
theorem word_tokens (text : List Char) : WordTokens text where
  number _ := isLexeme_num_iff
  name _ := isLexeme_word_iff
  numeric _ _ _ h hs := h.readsNumeric hs
  apart _ _ _ _ _ _ ht hu hkt hku := stop_ne_offset ht hu hkt hku
  passed ts r h t ht u hu hkt hku := by
    have hread : ∀ v ∈ ts, ∃ after, tokenAt? text v.cursor = some (.ok (v, after)) := by
      intro v hv
      obtain ⟨front, back, rfl⟩ := List.append_of_mem hv
      obtain ⟨r₁, after, hfront, hn, -, -⟩ := h.split
      exact ⟨_, (hfront.standsIn (Reader.standsIn_ofText text)).tokenAt hn⟩
    obtain ⟨_, ht⟩ := hread t ht
    obtain ⟨_, hu⟩ := hread u hu
    exact stop_ne_offset ht hu hkt hku

end RSource
