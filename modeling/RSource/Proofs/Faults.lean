import RSource.Proofs.Blanks
import RSource.Proofs.Offsets
import RSource.Proofs.Order
import RSource.Proofs.Yield

/-!
# Faults of the characters and of the tokens

A parse reads its tokens when it asks for them, so it may come to a token that no rule accepts
before it comes to characters that are no token. It never comes past these.

* `Tape.Holds` — a token that a parse on the tape may come to, the end of the input included.
* `Parse.token_of_error` — **an error that is not lexical stands at such a token**.
* `Reader.lexText_error_iff` — the fault of a text is how its tokens end.
* `lineCol`, `Location.Earlier` — line and column without a bound, and places in their order.
* `lexical_faults_agree` — **a parse reports the fault of the source, or a token before it**.
-/

namespace RSource

/-- The token is left on the tape, or it is the end of the input. -/
def Tape.Holds (s : Tape) (t : Token) : Prop := t ∈ s.tokens ∨ s.ending = .ok t

namespace Tape

variable {s : Tape} {t : Token}

theorem Holds.of_head (h : s.head = .ok t) : s.Holds t := by
  unfold head at h
  split at h
  · rename_i u us htokens
    cases h
    exact Or.inl (by simp [htokens])
  · exact Or.inr h

theorem Holds.of_tail (h : s.tail.Holds t) : s.Holds t :=
  h.imp_left List.mem_of_mem_tail

theorem Holds.of_afterLines (h : s.afterLines.Holds t) : s.Holds t :=
  h.imp_left fun ht => (List.dropWhile_suffix _).mem ht

theorem Holds.of_shown (h : s.shown.Holds t) : s.Holds t := by
  unfold shown at h
  split at h
  · exact h.of_afterLines
  · exact h

theorem Holds.of_past (h : s.past.Holds t) : s.Holds t := h.of_tail.of_shown

theorem holds_front (h : s.front = .ok t) : s.Holds t := (Holds.of_head h).of_shown

end Tape

/-- **An error that is not lexical stands at a token.** -/
theorem Parse.token_of_error {α : Type} {p : Parse α} {s : Tape} {e : Error}
    (h : p.play s = .error e) (he : e.isLexical = false) :
    ∃ t, s.Holds t ∧
      ((∃ expected, e = .unexpected (.ofToken t expected)) ∨ e = .tooDeep t.loc) := by
  induction p generalizing s with
  | done a => cases h
  | reject expected =>
      rw [play] at h
      split at h <;> cases h
      · cases he
      · rename_i t ht
        exact ⟨t, Tape.holds_front ht, Or.inl ⟨expected, rfl⟩⟩
  | tooDeep =>
      rw [play] at h
      split at h <;> cases h
      · cases he
      · rename_i t ht
        exact ⟨t, Tape.holds_front ht, Or.inr rfl⟩
  | ahead n k ih =>
      rw [play] at h
      split at h
      · cases h
        cases he
      · exact ih _ h
  | take k ih =>
      rw [play] at h
      split at h
      · cases h
        cases he
      · obtain ⟨t, ht, hstands⟩ := ih _ h
        exact ⟨t, ht.of_past, hstands⟩
  | skipLines k ih =>
      rw [play] at h
      split at h
      · cases h
        cases he
      · obtain ⟨t, ht, hstands⟩ := ih _ h
        exact ⟨t, ht.of_afterLines, hstands⟩
  | beyondLines k ih =>
      rw [play] at h
      split at h
      · cases h
        cases he
      · exact ih _ h
  | enter l k ih => exact ih () (s := s.enter l) h
  | leave k ih => exact ih () (s := s.leave) h
  | inBrackets k ih => exact ih _ h

/-! ## The fault of a text -/

namespace Reader

/-- The fault of a text is how its tokens end. -/
theorem lexText_error_iff {text : List Char} {e : LexError} :
    lexText text = .error e ↔ (ofText text).remaining.2 = .error e := by
  constructor
  · intro h
    obtain ⟨us, r, hr, hn⟩ := reaches_of_lexText_error h
    rw [remaining_of_reaches hr, remaining_error hn]
  · intro h
    cases hlex : lexText text with
    | ok ts =>
        obtain ⟨us, k, -, hr⟩ := lexText_iff.mp hlex
        rw [remaining_of_reaches_end hr] at h
        cases h
    | error e' =>
        obtain ⟨us, r, hr, hn⟩ := reaches_of_lexText_error hlex
        rw [remaining_of_reaches hr, remaining_error hn] at h
        cases h
        rfl

end Reader

/-- How a parse of a text is refused: for its characters as its tokens end, or else at one of its
tokens. -/
theorem parseText_error {text : List Char} {e : Error} (h : parseText text = .error e) :
    (∃ fault, e = .lexical fault ∧ lexText text = .error fault) ∨
    e.isLexical = false ∧ ∃ t, (Feed.tape (.ofText text)).Holds t ∧
      ((∃ expected, e = .unexpected (.ofToken t expected)) ∨ e = .tooDeep t.loc) := by
  rw [parseText, parseFeed_play] at h
  generalize hplay : Parse.play _ (Feed.tape (.ofText text)) = result at h
  cases result with
  | ok r => cases h
  | error e' =>
      cases h
      cases e with
      | lexical fault =>
          exact Or.inl ⟨fault, rfl, Reader.lexText_error_iff.mpr (Parse.ending_of_lexical hplay)⟩
      | unexpected e => exact Or.inr ⟨rfl, Parse.token_of_error hplay rfl⟩
      | tooDeep l => exact Or.inr ⟨rfl, Parse.token_of_error hplay rfl⟩

/-! ## Places in their order -/

/-- Line and column behind some characters, counted from one and without a bound. -/
def lineCol (read : List Char) : Nat × Nat :=
  read.foldl (fun p c => if c = '\n' then (p.1 + 1, 1) else (p.1, p.2 + 1)) (1, 1)

/-- The place at a line and a column. -/
def Location.ofLineCol (p : Nat × Nat) : Location := ⟨.ofNat p.1, .ofNat p.2⟩

theorem lineCol_append (read : List Char) (c : Char) :
    lineCol (read ++ [c]) = if c = '\n' then ((lineCol read).1 + 1, 1)
      else ((lineCol read).1, (lineCol read).2 + 1) := by
  rw [lineCol, List.foldl_append]
  rfl

/-- The place behind some characters is their line and column in 32 bits. -/
theorem Location.advance_start (read : List Char) :
    Location.start.advance read = .ofLineCol (lineCol read) := by
  induction read using List.reverseRecOn with
  | nil => rfl
  | append_singleton read c ih =>
      have hstep : Location.start.advance (read ++ [c]) = (Location.start.advance read).step c := by
        rw [advance, List.foldl_append]
        rfl
      rw [hstep, ih, lineCol_append, step]
      split
      · simp only [ofLineCol, UInt32.ofNat_add]
        rfl
      · simp only [ofLineCol, UInt32.ofNat_add]
        rfl

/-- Further up, or further left on the same line. -/
def LineColLt (p q : Nat × Nat) : Prop := p.1 < q.1 ∨ p.1 = q.1 ∧ p.2 < q.2

/-- Every character leads to a later line or column. -/
theorem lineCol_lt_append (read : List Char) {gap : List Char} (h : gap ≠ []) :
    LineColLt (lineCol read) (lineCol (read ++ gap)) := by
  induction gap using List.reverseRecOn with
  | nil => exact absurd rfl h
  | append_singleton gap c ih =>
      have hstep : LineColLt (lineCol (read ++ gap)) (lineCol (read ++ gap ++ [c])) := by
        rw [lineCol_append, LineColLt]
        split <;> simp
      rw [← List.append_assoc]
      by_cases hgap : gap = []
      · rw [hgap, List.append_nil] at hstep ⊢
        exact hstep
      · have := ih hgap
        unfold LineColLt at *
        omega

/-- Neither line nor column passes the number of characters by more than one. -/
theorem lineCol_le (read : List Char) :
    (lineCol read).1 ≤ read.length + 1 ∧ (lineCol read).2 ≤ read.length + 1 := by
  induction read using List.reverseRecOn with
  | nil => exact ⟨Nat.le_refl _, Nat.le_refl _⟩
  | append_singleton read c ih =>
      rw [lineCol_append, List.length_append, List.length_singleton]
      split <;> simp only <;> omega

namespace Location

instance instLT : LT Location where
  lt a b := a.line < b.line ∨ a.line = b.line ∧ a.col < b.col

theorem lt_def {a b : Location} : a < b ↔ a.line < b.line ∨ a.line = b.line ∧ a.col < b.col :=
  Iff.rfl

/-- The first place comes before the second in the text: it is further up, or further left on the
same line, where lines and columns are counted without a bound. -/
inductive Earlier (text : List Char) : Location → Location → Prop where
  | mk {read read' : List Char} (hread : read <+: text) (hread' : read' <+: text)
      (hlt : LineColLt (lineCol read) (lineCol read')) :
      Earlier text (.ofLineCol (lineCol read)) (.ofLineCol (lineCol read'))

/-- So it is in 32 bits, unless the text is too long for them. -/
theorem Earlier.lt {text : List Char} {l l' : Location} (h : Earlier text l l')
    (hn : text.length < UInt32.size - 1) : l < l' := by
  obtain ⟨hread, hread', hlt⟩ := h
  rename_i read read'
  have hle := hread.length_le
  have hle' := hread'.length_le
  obtain ⟨hline, hcol⟩ := lineCol_le read
  obtain ⟨hline', hcol'⟩ := lineCol_le read'
  have hexact {n : Nat} (h : n ≤ text.length + 1) : (UInt32.ofNat n).toNat = n :=
    UInt32.toNat_ofNat_of_lt' (by omega)
  simp only [lt_def, ofLineCol, UInt32.lt_iff_toNat_lt, ← UInt32.toNat_inj]
  rw [hexact (by omega), hexact (by omega), hexact (by omega), hexact (by omega)]
  exact hlt

end Location

/-- A reader that has read less of a text stands at an earlier place. -/
theorem Reader.StandsIn.earlier {text : List Char} {r r' : Reader} (h : r.StandsIn text)
    (h' : r'.StandsIn text) (hlt : r.cursor.offset < r'.cursor.offset) :
    Location.Earlier text r.cursor.loc r'.cursor.loc := by
  obtain ⟨read, htext, hcursor⟩ := h
  obtain ⟨read', htext', hcursor'⟩ := h'
  rw [hcursor, hcursor', Cursor.offset_start_advance, Cursor.offset_start_advance] at hlt
  have hread : read <+: text := ⟨_, htext.symm⟩
  have hread' : read' <+: text := ⟨_, htext'.symm⟩
  have hloc (cs : List Char) : (Cursor.start.advance cs).loc = .ofLineCol (lineCol cs) := by
    rw [Cursor.loc_advance]
    exact Location.advance_start cs
  rw [hcursor, hcursor', hloc, hloc]
  refine .mk hread hread' ?_
  rcases List.prefix_or_prefix_of_prefix hread hread' with ⟨gap, rfl⟩ | ⟨gap, rfl⟩
  · apply lineCol_lt_append
    rintro rfl
    rw [List.append_nil] at hlt
    omega
  · rw [List.flatMap_append, List.length_append] at hlt
    omega

/-- A token that a parse may come to stands before the fault of the text. -/
theorem Reader.earlier_of_holds {text : List Char} {t : Token} {e : LexError}
    (ht : (Feed.tape (.ofText text)).Holds t) (he : lexText text = .error e) :
    Location.Earlier text t.loc e.loc := by
  obtain ⟨us, r, hr, hn⟩ := reaches_of_lexText_error he
  have hremaining := remaining_of_reaches hr
  rw [remaining_error hn, List.append_nil] at hremaining
  rcases ht with ht | ht
  · have hmem : t ∈ withoutComments us := by
      have htokens : (Feed.tape (.ofText text)).tokens = withoutComments us :=
        congrArg Prod.fst hremaining
      rwa [htokens] at ht
    obtain ⟨front, back, rfl⟩ := List.append_of_mem (List.mem_filter.mp hmem).1
    obtain ⟨r₁, after, hfront, hn₁, hk, hback⟩ := hr.split
    have hstands := (hfront.standsIn (standsIn_ofText text)).at_token hn₁
    have hfault := (hr.standsIn (standsIn_ofText text)).skipBlanks
    have hloc : e.loc = r.skipBlanks.cursor.loc := by
      rw [next, read] at hn
      split at hn <;> cases hn
      rfl
    have hlt : t.offset < r.skipBlanks.cursor.offset := by
      have hblanks : r.cursor.offset ≤ r.skipBlanks.cursor.offset := by
        rw [skipBlanks, Cursor.offset_advance]
        exact Nat.le_add_right _ _
      have := next_offset_lt hn₁ hk
      have := hback.offsets.2.2.1
      omega
    rw [hloc]
    exact hstands.earlier hfault hlt
  · have hending : (Feed.tape (.ofText text)).ending = .error e := congrArg Prod.snd hremaining
    rw [hending] at ht
    cases ht

/-- What the parse of a text has to do with the fault of its characters. -/
structure FaultsAgree (bytes : List UInt8) (text : List Char) : Prop where
  /-- A fault that the parse reports is that of the source. -/
  reported : ∀ e, parse bytes = .error (.lexical e) → lex bytes = .error e
  /-- The parse of a source with a fault reports it, or a token before it. -/
  found : ∀ e, lex bytes = .error e → parse bytes = .error (.lexical e) ∨
    ∃ e', parse bytes = .error e' ∧ e'.isLexical = false ∧
      Location.Earlier text e'.loc e.loc ∧
      (text.length < UInt32.size - 1 → e'.loc < e.loc)
  /-- No source with a fault is accepted. -/
  accepted : ∀ p, parse bytes = .ok p → ∃ ts, lex bytes = .ok ts

/-- **A parse reports the fault of the source, or a token before it.** -/
theorem lexical_faults_agree {bytes : List UInt8} {text : List Char}
    (h : decodeSource bytes = .ok text) : FaultsAgree bytes text := by
  have hlex : lex bytes = lexText text := by rw [lex, h]
  have hparse : parse bytes = parseText text := by rw [parse, h]
  have haccepted : ∀ p, parse bytes = .ok p → ∃ ts, lex bytes = .ok ts := by
    intro p hp
    obtain ⟨ts, hts, -⟩ := yield_eq_tokens hp
    exact ⟨ts, hts⟩
  refine ⟨?_, ?_, haccepted⟩
  · intro e he
    rw [hparse] at he
    rcases parseText_error he with ⟨fault, hfault, hlexText⟩ | ⟨hlexical, -⟩
    · cases hfault
      rw [hlex, hlexText]
    · cases hlexical
  · intro e he
    cases hp : parse bytes with
    | ok p =>
        obtain ⟨ts, hts⟩ := haccepted p hp
        rw [he] at hts
        cases hts
    | error e' =>
        rw [hlex] at he
        rw [hparse] at hp
        rcases parseText_error hp with ⟨fault, rfl, hlexText⟩ | ⟨hlexical, t, ht, hstands⟩
        · rw [he] at hlexText
          cases hlexText
          exact Or.inl rfl
        · have hloc : e'.loc = t.loc := by
            rcases hstands with ⟨expected, rfl⟩ | rfl <;> rfl
          have hearlier := Reader.earlier_of_holds ht he
          rw [← hloc] at hearlier
          exact Or.inr ⟨e', rfl, hlexical, hearlier, hearlier.lt⟩

/-- A call is not closed before a string that is not closed. -/
theorem lexical_faults_agree_of_call :
    let source := "f(x y 'z".toUTF8.data.toList
    decodeSource source = .ok "f(x y 'z".toList ∧ FaultsAgree source "f(x y 'z".toList := by
  intro source
  have hsource : decodeSource source = .ok "f(x y 'z".toList := by decide +kernel
  exact ⟨hsource, lexical_faults_agree hsource⟩

end RSource
