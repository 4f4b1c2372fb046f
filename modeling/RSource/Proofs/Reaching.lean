import Mathlib.Data.List.Forall2
import RSource.Proofs.Remaining
import RSource.Proofs.Relocation

/-!
# Reading up to some point

* `Reader.Reaches` — reading some tokens, comments included, takes a reader to another one.
* `Reader.remaining_of_reaches` — they are the first of the tokens left.
* `Reader.reaches_end` — reading goes on to the end of the input or to a fault.
* `Reader.reaches_of_lex` — the tokens of a source are those that reading passes.
* `Reader.Reaches.offsets`, `Reader.remaining_offsets` — **offsets grow from token to token**.
* `Reader.remaining_shift` — **reading from another place finds the same tokens elsewhere**.
-/

namespace RSource

/-- The tokens that are no comments. -/
def withoutComments (ts : List Token) : List Token := ts.filter (·.kind ≠ .comment)

namespace Reader

/-- Reading some tokens, comments included, takes a reader to another one. Behind the last of them
blanks may be passed over. -/
inductive Reaches : Reader → List Token → Reader → Prop where
  | here (r : Reader) : Reaches r [] r
  | blanks (r : Reader) : Reaches r [] r.skipBlanks
  | step {r after r' : Reader} {t : Token} {ts : List Token} (h : r.next = .ok (t, after))
      (hk : t.kind ≠ .eof) (hr : Reaches after ts r') : Reaches r (t :: ts) r'

theorem afterBlanks_idem (cs : List Char) :
    Lexeme.blanks (Lexeme.afterBlanks cs) = [] ∧
      Lexeme.afterBlanks (Lexeme.afterBlanks cs) = Lexeme.afterBlanks cs := by
  unfold Lexeme.blanks Lexeme.afterBlanks
  cases h : cs.dropWhile isBlank with
  | nil => exact ⟨rfl, rfl⟩
  | cons c rest =>
      have hc := List.head?_dropWhile_not isBlank cs
      rw [h] at hc
      simpa using hc

theorem next_skipBlanks (r : Reader) : r.skipBlanks.next = r.next := by
  obtain ⟨hb, ha⟩ := afterBlanks_idem r.rest
  simp only [next, skipBlanks]
  rw [hb, ha]
  rfl

theorem remaining_skipBlanks (r : Reader) : r.skipBlanks.remaining = r.remaining := by
  cases h : r.next with
  | error e => rw [remaining_error h, remaining_error ((next_skipBlanks r).trans h)]
  | ok p => rw [remaining_ok h, remaining_ok ((next_skipBlanks r).trans h)]

theorem remaining_step {r after : Reader} {t : Token} (h : r.next = .ok (t, after))
    (hk : t.kind ≠ .eof) :
    r.remaining = (withoutComments [t] ++ after.remaining.1, after.remaining.2) := by
  rw [remaining_ok h, if_neg hk]
  unfold withoutComments
  split
  · rename_i hc
    simp [hc]
  · rename_i hc
    simp [hc]

theorem withoutComments_cons (t : Token) (ts : List Token) :
    withoutComments (t :: ts) = withoutComments [t] ++ withoutComments ts :=
  List.filter_append [t] ts

theorem withoutComments_lines {lines : List Token} (hl : ∀ l ∈ lines, l.kind = .newline) :
    withoutComments lines = lines :=
  List.filter_eq_self.mpr fun l hm => by simp [hl l hm]

/-- The tokens that reading passes are the first of the tokens left. -/
theorem remaining_of_reaches {r r' : Reader} {ts : List Token} (h : Reaches r ts r') :
    r.remaining = (withoutComments ts ++ r'.remaining.1, r'.remaining.2) := by
  induction h with
  | here => rfl
  | blanks r => rw [remaining_skipBlanks]; rfl
  | @step r after r' t ts h hk hr ih =>
      rw [remaining_step h hk, withoutComments_cons t ts, ih, List.append_assoc]

theorem Reaches.trans {r r₁ r₂ : Reader} {ts us : List Token} (h : Reaches r ts r₁)
    (h' : Reaches r₁ us r₂) (hne : us ≠ []) : Reaches r (ts ++ us) r₂ := by
  induction h with
  | here => exact h'
  | blanks r =>
      cases h' with
      | here => exact absurd rfl hne
      | blanks => exact absurd rfl hne
      | step h hk hr => exact .step ((next_skipBlanks r).symm.trans h) hk hr
  | step h hk hr ih => exact .step h hk (ih h')

theorem skipBlanks_idem (r : Reader) : r.skipBlanks.skipBlanks = r.skipBlanks := by
  obtain ⟨hb, ha⟩ := afterBlanks_idem r.rest
  simp only [skipBlanks, hb, ha]
  rfl

/-- Blanks may be passed over behind the last token. -/
theorem Reaches.past_blanks {r r' : Reader} {ts : List Token} (h : Reaches r ts r') :
    Reaches r ts r'.skipBlanks := by
  induction h with
  | here r => exact .blanks r
  | blanks r =>
      rw [skipBlanks_idem]
      exact .blanks r
  | step h hk hr ih => exact .step h hk ih

/-- Reading passes each of its tokens in turn. -/
theorem Reaches.split {r r' : Reader} {ts us : List Token} {t : Token}
    (h : Reaches r (ts ++ t :: us) r') :
    ∃ r₁ after, Reaches r ts r₁ ∧ r₁.next = .ok (t, after) ∧ t.kind ≠ .eof ∧
      Reaches after us r' := by
  induction ts generalizing r with
  | nil =>
      cases h with
      | step h hk hr => exact ⟨r, _, .here r, h, hk, hr⟩
  | cons u ts ih =>
      cases h with
      | step h hk hr =>
          obtain ⟨r₁, after, h₁, hn, ht, h₂⟩ := ih hr
          exact ⟨r₁, after, .step h hk h₁, hn, ht, h₂⟩

/-! ## All tokens -/

/-- Reading goes on to the end of the input or to a fault. -/
theorem reaches_end (r : Reader) :
    ∃ ts r', Reaches r ts r' ∧ r'.remaining.1 = [] := by
  induction r using reading with
  | error r e h => exact ⟨[], r, .here r, by rw [remaining_error h]⟩
  | eof r t after h hk => exact ⟨[], r, .here r, by rw [remaining_eof h hk]⟩
  | step r t after h hk ih =>
      obtain ⟨ts, r', hr, hend⟩ := ih
      exact ⟨t :: ts, r', .step h hk hr, hend⟩

/-- The token at the end of the input, which is read where the cursor stands. -/
def eofAt (k : Cursor) : Token := ⟨.eof, "", k.loc, k.offset⟩

theorem remaining_nil (k : Cursor) : remaining ⟨k, []⟩ = ([], .ok (eofAt k)) := by
  have hn : next ⟨k, []⟩ = .ok (eofAt k, ⟨k, []⟩) := rfl
  exact remaining_eof hn rfl

/-- Where the end of the input is read, nothing but blanks is left. -/
theorem reaches_of_eof {r after : Reader} {t : Token} (h : r.next = .ok (t, after))
    (hk : t.kind = .eof) : ∃ k, t = eofAt k ∧ Reaches r [] ⟨k, []⟩ := by
  obtain ⟨l, hl, rfl, rfl⟩ := next_ok h
  have hnil := Lexeme.scan_eof hl hk
  rw [hnil] at hl
  cases hl
  have hend : r.skipBlanks = ⟨r.skipBlanks.cursor, []⟩ := by simp [skipBlanks, hnil]
  exact ⟨r.skipBlanks.cursor, rfl, hend ▸ .blanks r⟩

theorem reaches_of_tokensWithin {left : List Char} {r : Reader} {ts : List Token}
    (hl : r.rest.length ≤ left.length) (h : tokensWithin left r = .ok ts) :
    ∃ us k, ts = us ++ [eofAt k] ∧ Reaches r us ⟨k, []⟩ := by
  induction left generalizing r ts with
  | nil =>
      rw [tokensWithin] at h
      split at h
      · cases h
      · rename_i t after hn
        cases h
        by_cases hk : t.kind = .eof
        · obtain ⟨k, rfl, hr⟩ := reaches_of_eof hn hk
          exact ⟨[], k, rfl, hr⟩
        · have hlt := next_rest_lt hn hk
          simp only [List.length_nil] at hl
          omega
  | cons c left ih =>
      rw [tokensWithin] at h
      split at h
      · cases h
      · rename_i t after hn
        split at h
        · rename_i hk
          cases h
          obtain ⟨k, rfl, hr⟩ := reaches_of_eof hn hk
          exact ⟨[], k, rfl, hr⟩
        · rename_i hk
          have hlt := next_rest_lt hn hk
          simp only [List.length_cons] at hl
          split at h
          · cases h
          · rename_i us hus
            cases h
            obtain ⟨us', k, rfl, hr⟩ := ih (by omega) hus
            exact ⟨t :: us', k, rfl, .step hn hk hr⟩

/-- **The tokens of a source are those that reading passes, and its end.** -/
theorem reaches_of_lex {bytes : List UInt8} {ts : List Token} (h : lex bytes = .ok ts) :
    ∃ text us k, decodeSource bytes = .ok text ∧ ts = us ++ [eofAt k] ∧
      Reaches (.ofText text) us ⟨k, []⟩ := by
  rw [lex] at h
  split at h
  · cases h
  · rename_i text htext
    obtain ⟨us, k, rest⟩ := reaches_of_tokensWithin (Nat.le_refl _) h
    exact ⟨text, us, k, htext, rest⟩

theorem remaining_of_reaches_end {r : Reader} {ts : List Token} {k : Cursor}
    (h : Reaches r ts ⟨k, []⟩) : r.remaining = (withoutComments ts, .ok (eofAt k)) := by
  rw [remaining_of_reaches h, remaining_nil, List.append_nil]

/-! ## Offsets -/

theorem next_offset {r after : Reader} {t : Token} (h : r.next = .ok (t, after)) :
    r.cursor.offset ≤ t.offset ∧
      after.cursor.offset = t.offset + (t.lexeme.toList.flatMap String.utf8EncodeChar).length := by
  obtain ⟨l, -, rfl, rfl⟩ := next_ok h
  simp only [skipBlanks, Cursor.offset_advance, String.toList_ofList]
  exact ⟨Nat.le_add_right _ _, trivial⟩

theorem offset_of_next {r after : Reader} {t : Token} (h : r.next = .ok (t, after)) :
    t.offset = r.skipBlanks.cursor.offset := by
  obtain ⟨l, -, rfl, -⟩ := next_ok h
  rfl

theorem next_offset_lt {r after : Reader} {t : Token} (h : r.next = .ok (t, after))
    (hk : t.kind ≠ .eof) : t.offset < after.cursor.offset := by
  have hoff := (next_offset h).2
  obtain ⟨l, hl, rfl, rfl⟩ := next_ok h
  have hpos : 0 < (l.text.flatMap String.utf8EncodeChar).length := by
    obtain ⟨c, cs, hc⟩ := List.exists_cons_of_ne_nil (Lexeme.scan_text_ne_nil hl hk)
    have := c.utf8Size_pos
    rw [hc, List.flatMap_cons, List.length_append, String.length_utf8EncodeChar]
    omega
  rw [String.toList_ofList] at hoff
  omega

/-- Offsets grow from token to token, from that of the reader on. -/
theorem Reaches.offsets {r r' : Reader} {ts : List Token} (h : Reaches r ts r') :
    (∀ t ∈ ts, r.cursor.offset ≤ t.offset) ∧ (∀ t ∈ ts, t.offset < r'.cursor.offset) ∧
      r.cursor.offset ≤ r'.cursor.offset ∧ ts.Pairwise (fun t u => t.offset < u.offset) := by
  induction h with
  | here => exact ⟨by simp, by simp, Nat.le_refl _, .nil⟩
  | blanks r =>
      refine ⟨by simp, by simp, ?_, .nil⟩
      rw [skipBlanks, Cursor.offset_advance]
      exact Nat.le_add_right _ _
  | @step r after r' t ts h hk hr ih =>
      obtain ⟨hfirst, hlast, hle, hpair⟩ := ih
      have hoff := (next_offset h).1
      have hlt := next_offset_lt h hk
      refine ⟨?_, ?_, by omega, List.pairwise_cons.mpr ⟨fun u hu => ?_, hpair⟩⟩
      · intro u hu
        rcases List.mem_cons.mp hu with rfl | hu
        · exact hoff
        · have := hfirst u hu
          omega
      · intro u hu
        rcases List.mem_cons.mp hu with rfl | hu
        · omega
        · exact hlast u hu
      · have := hfirst u hu
        omega

/-- **Offsets grow from token to token.** -/
theorem remaining_offsets (r : Reader) :
    (∀ t ∈ r.remaining.1, r.cursor.offset ≤ t.offset) ∧
      r.remaining.1.Pairwise (fun t u => t.offset < u.offset) := by
  obtain ⟨ts, r', hr, hend⟩ := reaches_end r
  rw [remaining_of_reaches hr, hend, List.append_nil]
  obtain ⟨hfirst, -, -, hpair⟩ := hr.offsets
  exact ⟨fun t ht => hfirst t (List.mem_filter.mp ht).1, hpair.filter _⟩

/-! ## Other places -/

/-- A token at another place, as many bytes further on. -/
structure Shifted (f g : Location → Location) (d : Nat) (t u : Token) : Prop where
  twin : Twin f g t u
  offset : u.offset = t.offset + d

section Shift

variable {f g : Location → Location} {d : Nat}
  (hstep : ∀ l l' c, f l = g l' → f (Location.step l c) = g (Location.step l' c))

include hstep

theorem advance_shift {k k' : Cursor} (hoff : k'.offset = k.offset + d) (hloc : f k.loc = g k'.loc)
    (cs : List Char) : (k'.advance cs).offset = (k.advance cs).offset + d ∧
      f (k.advance cs).loc = g (k'.advance cs).loc := by
  induction cs generalizing k k' with
  | nil => exact ⟨hoff, hloc⟩
  | cons c cs ih =>
      have hoff' : (k'.step c).offset = (k.step c).offset + d := by
        simp only [Cursor.step, hoff]
        omega
      exact ih hoff' (hstep _ _ c hloc)

/-- One token read from another place. -/
theorem next_shift {r r' : Reader} (hrest : r'.rest = r.rest)
    (hoff : r'.cursor.offset = r.cursor.offset + d) (hloc : f r.cursor.loc = g r'.cursor.loc) :
    (∃ e e', r.next = .error e ∧ r'.next = .error e' ∧ e.relocate f = e'.relocate g) ∨
    ∃ t u after after', r.next = .ok (t, after) ∧ r'.next = .ok (u, after') ∧ Shifted f g d t u ∧
      after'.rest = after.rest ∧ after'.cursor.offset = after.cursor.offset + d ∧
      f after.cursor.loc = g after'.cursor.loc := by
  obtain ⟨hoff₁, hloc₁⟩ := advance_shift hstep hoff hloc (Lexeme.blanks r.rest)
  simp only [next, read, skipBlanks, hrest]
  cases Lexeme.scan (Lexeme.afterBlanks r.rest) with
  | error fault => exact Or.inl ⟨_, _, rfl, rfl, by simp [LexError.relocate, hloc₁]⟩
  | ok l =>
      obtain ⟨hoff₂, hloc₂⟩ := advance_shift hstep hoff₁ hloc₁ l.text
      exact Or.inr ⟨_, _, _, _, rfl, rfl, ⟨⟨rfl, rfl, hloc₁⟩, hoff₁⟩, rfl, hoff₂, hloc₂⟩

/-- **Reading from another place finds the same tokens elsewhere.** -/
theorem remaining_shift {r r' : Reader} (hrest : r'.rest = r.rest)
    (hoff : r'.cursor.offset = r.cursor.offset + d) (hloc : f r.cursor.loc = g r'.cursor.loc) :
    List.Forall₂ (Shifted f g d) r.remaining.1 r'.remaining.1 ∧
      SameEnd f g r.remaining.2 r'.remaining.2 := by
  induction r using reading generalizing r' with
  | error r e h =>
      rcases next_shift hstep hrest hoff hloc with ⟨_, e', h₁, h', he⟩ | ⟨_, _, _, _, h₁, _⟩
      · rw [h] at h₁
        cases h₁
        rw [remaining_error h, remaining_error h']
        exact ⟨.nil, .fault he⟩
      · rw [h] at h₁
        cases h₁
  | eof r t after h hk =>
      rcases next_shift hstep hrest hoff hloc with ⟨_, _, h₁, _⟩ | ⟨_, u, _, _, h₁, h', htu, _⟩
      · rw [h] at h₁
        cases h₁
      · rw [h] at h₁
        cases h₁
        rw [remaining_eof h hk, remaining_eof h' (htu.twin.kind.trans hk)]
        exact ⟨.nil, .eof htu.twin⟩
  | step r t after h hk ih =>
      rcases next_shift hstep hrest hoff hloc with
        ⟨_, _, h₁, _⟩ | ⟨_, u, _, after', h₁, h', htu, hrest', hoff', hloc'⟩
      · rw [h] at h₁
        cases h₁
      · rw [h] at h₁
        cases h₁
        obtain ⟨hall, hend⟩ := ih hrest' hoff' hloc'
        have hk' : u.kind ≠ .eof := by rwa [htu.twin.kind]
        rw [remaining_ok h, remaining_ok h', if_neg hk, if_neg hk', htu.twin.kind]
        split
        · exact ⟨hall, hend⟩
        · exact ⟨.cons htu hall, hend⟩

end Shift

end Reader

end RSource
