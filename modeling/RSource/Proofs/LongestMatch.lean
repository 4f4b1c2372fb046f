import RSource.Proofs.Decoding
import RSource.Proofs.Partition

/-!
# The longest match

A token is the longest lexeme that stands where it starts, so the tokens of a source are the only
ones that cover it with longest lexemes.

* `IsLexeme` — some bytes are one token of a kind, read on their own.
* `isLexeme_iff` — a text is a lexeme if it spells a token that is not the end of the input.
* `Lexeme.longest_of_scan` — what is read does not go on, whatever is read of the text behind it.
* `Token.IsLongestIn` — a token is the longest lexeme of a source at its offset.
* `Reader.StandsIn.isLongestIn` — **every token that is read is the longest lexeme at its offset**.
* `LongestMatch`, `LongestMatch.unique` — tokens that cover a source with longest lexemes, of which
  there are none but these.
* `longest_match` — **the tokens of a source are its only longest match**.
-/

namespace RSource

/-- The bytes are, read on their own, one token of the kind that is all of them, and then the end of
the input. -/
def IsLexeme (kind : TokenKind) (bytes : List UInt8) : Prop :=
  ∃ t eof, lex bytes = .ok [t, eof] ∧ t.kind = kind ∧ t.bytes = bytes ∧ eof.kind = .eof

/-! ## Lexemes -/

namespace Lexeme

/-- A spelling is read to its end where nothing follows. -/
theorem Spells.scan_alone {kind : TokenKind} {text : List Char} (h : Spells kind text)
    (he : kind ≠ .eof) : scan text = .ok ⟨kind, text, []⟩ := by
  have hscan := h.read_again .nil (fun _ c hc => by cases hc) he
  rwa [List.append_nil] at hscan

/-- What is read does not go on: however much is read of the text behind it, the same token comes
first. -/
theorem longest_of_scan {cs v post : List Char} {l : Lexeme} {kind : TokenKind}
    (h : scan cs = .ok l) (he : l.kind ≠ .eof) (hrest : l.rest = v ++ post)
    (hspells : Spells kind (l.text ++ v)) (hk : kind ≠ .eof) : v = [] := by
  have hagain :=
    scan_again (reading_of_scan h) hrest Gap.nil.boundary (fun _ c hc => by cases hc) he
  rw [List.append_nil, hspells.scan_alone hk] at hagain
  simp only [Except.ok.injEq, Lexeme.mk.injEq] at hagain
  exact hagain.2.2.symm

end Lexeme

/-- A text is a lexeme if it spells a token that is not the end of the input. -/
theorem isLexeme_iff {kind : TokenKind} {text : List Char} :
    IsLexeme kind (text.flatMap String.utf8EncodeChar) ↔
      kind ≠ .eof ∧ Lexeme.Spells kind text := by
  have hlex : lex (text.flatMap String.utf8EncodeChar) = lexText text := by
    rw [lex, decodeSource_iff.mpr rfl]
  rw [IsLexeme, hlex]
  constructor
  · rintro ⟨t, eof, h, rfl, hbytes, -⟩
    obtain ⟨us, k, hus, hr⟩ := Reader.lexText_iff.mp h
    have htokens : [t] ++ [eof] = us ++ [Reader.eofAt k] := hus
    obtain ⟨rfl, -⟩ := List.append_inj' htokens rfl
    cases hr with
    | step hn hk _ =>
        refine ⟨hk, ?_⟩
        rw [← Utf8.encode_inj hbytes]
        exact Reader.spells_of_next hn
  · rintro ⟨he, hspells⟩
    have hrest : (Reader.ofText text).rest = [] ++ (text ++ []) := (List.append_nil text).symm
    have hscan : Lexeme.scan (text ++ []) = .ok ⟨kind, text, []⟩ := by
      rw [List.append_nil]
      exact hspells.scan_alone he
    have hn := Reader.next_of_scan hrest (by simp) (hspells.visible_append he []) hscan
    refine ⟨_, _, Reader.lexText_iff.mpr ⟨[_], _, rfl, .step hn he (.here _)⟩, rfl, ?_, rfl⟩
    rw [Token.bytes, String.toList_ofList]

/-- Bytes that are a lexeme are a text. -/
theorem IsLexeme.exists_text {kind : TokenKind} {bytes : List UInt8} (h : IsLexeme kind bytes) :
    ∃ text : List Char, bytes = text.flatMap String.utf8EncodeChar := by
  obtain ⟨t, -, -, -, hbytes, -⟩ := h
  exact ⟨t.lexeme.toList, hbytes.symm⟩

/-- Bytes are a lexeme of one kind at most. -/
theorem IsLexeme.kind_eq {kind kind' : TokenKind} {bytes : List UInt8} (h : IsLexeme kind bytes)
    (h' : IsLexeme kind' bytes) : kind = kind' := by
  obtain ⟨t, eof, hlex, rfl, -⟩ := h
  obtain ⟨t', eof', hlex', rfl, -⟩ := h'
  rw [hlex] at hlex'
  cases hlex'
  rfl

/-! ## Tokens -/

/-- The token is the longest lexeme of the source at its offset. -/
structure Token.IsLongestIn (t : Token) (bytes : List UInt8) : Prop where
  /-- On its own it is read as itself. -/
  alone : IsLexeme t.kind t.bytes
  starts : t.bytes <+: bytes.drop t.offset
  /-- Whatever starts there and is longer is no lexeme. -/
  longest : ∀ w, w <+: bytes.drop t.offset → t.bytes.length < w.length →
    ∀ kind, ¬ IsLexeme kind w

/-- **Every token that is read is the longest lexeme at its offset.** -/
theorem Reader.StandsIn.isLongestIn {text : List Char} {r after : Reader} {t : Token}
    (h : r.StandsIn text) (hn : r.next = .ok (t, after)) (hk : t.kind ≠ .eof) :
    t.IsLongestIn (text.flatMap String.utf8EncodeChar) := by
  refine ⟨isLexeme_iff.mpr ⟨hk, spells_of_next hn⟩, h.starts hn, ?_⟩
  intro w hw hlt kind hlexeme
  obtain ⟨ws, rfl⟩ := hlexeme.exists_text
  obtain ⟨hne, hspells⟩ := isLexeme_iff.mp hlexeme
  rw [h.drop_token hn] at hw
  obtain ⟨l, hl, rfl, rfl⟩ := next_ok hn
  rw [String.toList_ofList] at hw
  rw [Token.bytes, String.toList_ofList] at hlt
  obtain ⟨es, hes⟩ := Utf8.exists_append_of_encode hw
  rcases List.append_eq_append_iff.mp hes with ⟨v, rfl, hrest⟩ | ⟨v, htext, -⟩
  · -- A longer lexeme would go on where the token ends.
    obtain rfl := Lexeme.longest_of_scan hl hk hrest hspells hne
    rw [List.append_nil] at hlt
    omega
  · rw [htext, List.flatMap_append, List.length_append] at hlt
    omega

/-- At one offset there is one longest lexeme. -/
theorem Token.IsLongestIn.unique {t u : Token} {bytes : List UInt8} (h : t.IsLongestIn bytes)
    (h' : u.IsLongestIn bytes) (ho : t.offset = u.offset) :
    t.kind = u.kind ∧ t.lexeme = u.lexeme := by
  have hstarts := h'.starts
  have hlongest := h'.longest
  rw [← ho] at hstarts hlongest
  have hle : t.bytes.length ≤ u.bytes.length := by
    apply Nat.le_of_not_lt
    intro hlt
    exact hlongest _ h.starts hlt _ h.alone
  have hge : u.bytes.length ≤ t.bytes.length := by
    apply Nat.le_of_not_lt
    intro hlt
    exact h.longest _ hstarts hlt _ h'.alone
  have hbytes : t.bytes = u.bytes :=
    (List.prefix_of_prefix_length_le h.starts hstarts hle).eq_of_length (Nat.le_antisymm hle hge)
  have hkind := h.alone
  rw [hbytes] at hkind
  exact ⟨hkind.kind_eq h'.alone, String.toList_inj.mp (Utf8.encode_inj hbytes)⟩

/-! ## Sources -/

/-- The tokens cover the text with longest lexemes, and nothing but blanks stands between them. -/
structure LongestMatch (bytes : List UInt8) (text : List Char) (ts : List Token) : Prop where
  laid : Laid 0 text ts
  longest : ∀ t ∈ ts, t.IsLongestIn bytes

/-- What a token is and which part of the source it covers. -/
def Token.span (t : Token) : TokenKind × String × Nat := (t.kind, t.lexeme, t.offset)

/-- The first longest lexeme stands behind the blanks at the front. -/
theorem Laid.head {bytes : List UInt8} {start : Nat} {text : List Char} {t : Token}
    {ts : List Token} (h : Laid start text (t :: ts)) (ht : t.IsLongestIn bytes) :
    t.offset = start + ((Lexeme.blanks text).flatMap String.utf8EncodeChar).length ∧
      ∃ rest, Lexeme.afterBlanks text = t.lexeme.toList ++ rest ∧ Laid t.stop rest ts := by
  obtain ⟨he, hspells⟩ := isLexeme_iff.mp ht.alone
  cases h with
  | @token _ gap rest _ _ hgap hoffset hrest =>
      have hblank : ∀ c ∈ gap, isBlank c = true := fun c hc => isBlank_iff.mpr (hgap c hc)
      obtain ⟨hblanks, hafter⟩ := Lexeme.blanks_append hblank (hspells.visible_append he rest)
      rw [hblanks, hafter]
      exact ⟨hoffset, rest, rfl, hrest⟩

/-- Where no token stands, no longest lexeme does. -/
theorem Laid.not_cons {bytes : List UInt8} {start : Nat} {text : List Char} {t : Token}
    {ts : List Token} (h : Laid start text []) (h' : Laid start text (t :: ts)) :
    ¬ t.IsLongestIn bytes := by
  intro ht
  obtain ⟨he, hspells⟩ := isLexeme_iff.mp ht.alone
  obtain ⟨-, rest, hafter, -⟩ := h'.head ht
  cases h with
  | done hgap =>
      have hnil : Lexeme.afterBlanks text = [] :=
        List.dropWhile_eq_nil_iff.mpr fun c hc => isBlank_iff.mpr (hgap c hc)
      rw [hnil] at hafter
      exact hspells.ne_nil he (List.append_eq_nil_iff.mp hafter.symm).1

/-- Tokens that cover a text with longest lexemes cover it alike. -/
theorem Laid.unique {bytes : List UInt8} {start : Nat} {text : List Char} {us vs : List Token}
    (hu : Laid start text us) (hv : Laid start text vs) (hus : ∀ t ∈ us, t.IsLongestIn bytes)
    (hvs : ∀ t ∈ vs, t.IsLongestIn bytes) : us.map Token.span = vs.map Token.span := by
  induction us generalizing start text vs with
  | nil =>
      cases vs with
      | nil => rfl
      | cons v vs => exact absurd (hvs v (List.mem_cons_self ..)) (hu.not_cons hv)
  | cons u us ih =>
      cases vs with
      | nil => exact absurd (hus u (List.mem_cons_self ..)) (hv.not_cons hu)
      | cons v vs =>
          have hu' := hus u (List.mem_cons_self ..)
          have hv' := hvs v (List.mem_cons_self ..)
          obtain ⟨hoffset, rest, hafter, hrest⟩ := hu.head hu'
          obtain ⟨hoffset', rest', hafter', hrest'⟩ := hv.head hv'
          have ho : u.offset = v.offset := hoffset.trans hoffset'.symm
          obtain ⟨hkind, hlexeme⟩ := hu'.unique hv' ho
          rw [hafter, hlexeme] at hafter'
          have hstop : u.stop = v.stop := by
            rw [Token.stop, Token.stop, Token.bytes, Token.bytes, ho, hlexeme]
          rw [← List.append_cancel_left hafter', ← hstop] at hrest'
          have htail := ih hrest hrest' (fun t ht => hus t (List.mem_cons_of_mem _ ht))
            (fun t ht => hvs t (List.mem_cons_of_mem _ ht))
          rw [List.map_cons, List.map_cons, htail, Token.span, Token.span, hkind, hlexeme, ho]

theorem LongestMatch.unique {bytes : List UInt8} {text : List Char} {us vs : List Token}
    (hu : LongestMatch bytes text us) (hv : LongestMatch bytes text vs) :
    us.map Token.span = vs.map Token.span :=
  hu.laid.unique hv.laid hu.longest hv.longest

/-- **The tokens of a source are its only longest match.** Every token that is read before the end
of the input or a fault is read as itself on its own, and nothing longer that starts there is one
lexeme; and the tokens of a source are the only ones that cover it with longest lexemes. -/
theorem longest_match {bytes : List UInt8} {text : List Char} (h : decodeSource bytes = .ok text) :
    (∀ n, ∀ p ∈ (Session.ofText text).run (List.replicate n .next), ∀ t, p.1 = some (.ok t) →
      t.kind ≠ .eof → t.IsLongestIn bytes) ∧
    ∀ us eof, lex bytes = .ok (us ++ [eof]) → LongestMatch bytes text us ∧
      ∀ vs, LongestMatch bytes text vs → vs.map Token.span = us.map Token.span := by
  have hbytes := decodeSource_iff.mp h
  constructor
  · intro n p hp t ht hk
    rw [hbytes]
    cases Session.found_of_run text n p hp with
    | fault => cases ht
    | token hr hn =>
        cases ht
        exact hr.isLongestIn hn hk
  · intro us eof hlex
    have hlexText : lexText text = .ok (us ++ [eof]) := by rwa [lex, h] at hlex
    obtain ⟨us', k, hus, hreaches⟩ := Reader.lexText_iff.mp hlexText
    obtain ⟨rfl, -⟩ := List.append_inj' hus rfl
    have hmatch : LongestMatch bytes text us := by
      refine ⟨hreaches.laid_text, fun t ht => ?_⟩
      obtain ⟨r, after, hr, hn⟩ :=
        Reader.standsIn_of_mem hlexText (List.mem_append_left [eof] ht)
      rw [hbytes]
      exact hr.isLongestIn hn (hreaches.lexeme_ne t ht).1
    exact ⟨hmatch, fun vs hvs => hvs.unique hmatch⟩

/-- An arrow that starts with another one, an exponent and a word that starts with a reserved one
are read as one token each. The letter of an exponent is a digit of a number to base sixteen. -/
theorem longest_match_of_arrow :
    let source := "inner<<-0x1e+1e5L # 'x".toUTF8.data.toList
    let text := "inner<<-0x1e+1e5L # 'x".toList
    let us : List Token := [⟨.ident, "inner", ⟨1, 1⟩, 0⟩, ⟨.superLeftAssign, "<<-", ⟨1, 6⟩, 5⟩,
      ⟨.num .hex, "0x1e", ⟨1, 9⟩, 8⟩, ⟨.plus, "+", ⟨1, 13⟩, 12⟩,
      ⟨.num .float, "1e5L", ⟨1, 14⟩, 13⟩, ⟨.comment, "# 'x", ⟨1, 19⟩, 18⟩]
    let eof : Token := ⟨.eof, "", ⟨1, 23⟩, 22⟩
    decodeSource source = .ok text ∧ lex source = .ok (us ++ [eof]) ∧
      (∀ n, ∀ p ∈ (Session.ofText text).run (List.replicate n .next), ∀ t, p.1 = some (.ok t) →
        t.kind ≠ .eof → t.IsLongestIn source) ∧
      LongestMatch source text us ∧
      ∀ vs, LongestMatch source text vs → vs.map Token.span = us.map Token.span := by
  intro source text us eof
  have hsource : decodeSource source = .ok text := by decide +kernel
  have hlex : lex source = .ok (us ++ [eof]) := by decide +kernel
  obtain ⟨hlongest, hmatch⟩ := longest_match hsource
  exact ⟨hsource, hlex, hlongest, hmatch us eof hlex⟩

end RSource
