import RSource.Proofs.Reaching
import RSource.Proofs.ReflowExpression

/-!
# Blanks and comments

Tokens tell all there is to a source, but for the brackets that close an element subscript: these
stand right behind one another.

* `closings` — which two tokens in a row are closing brackets with nothing between them.
* `Pairing.between` — two sources that end alike.
* `reflows_of_twins` — tokens that are twins, and close alike, are read alike.
* `Reader.remaining_elsewhere`, `reflows_of_shifted` — a text is read alike in another place.
* `SameOutcome` — two outcomes that differ in places alone.
* `parse_of_same_tokens` — **blanks and comments never influence the parse**.
-/

namespace RSource

/-- For every two tokens in a row, whether they are closing brackets with nothing between them. -/
def closings : List Token → List Bool
  | t :: u :: ts =>
      (t.kind == .rbracket && u.kind == .rbracket && u.offset == t.offset + 1) ::
        closings (u :: ts)
  | _ => []

/-! ## Brackets that adjoin -/

theorem not_adjoins_nil (t : Token) : ¬ Adjoins t [] := by
  rintro ⟨u, us, h, -⟩
  cases h

/-- Behind a line feed nothing adjoins. -/
theorem not_adjoins_newline {t v : Token} {vs : List Token} (hv : v.kind = .newline)
    (hlt : t.offset < v.offset) (hvs : ∀ w ∈ vs, v.offset < w.offset) : ¬ Adjoins t (v :: vs) := by
  rintro ⟨u, us, hdrop, -, hoff⟩
  have hu : u ∈ dropLineFeeds vs := by
    have hcons : dropLineFeeds (v :: vs) = dropLineFeeds vs := by simp [dropLineFeeds, hv]
    rw [← hcons, hdrop]
    exact List.mem_cons_self ..
  have := hvs u ((List.dropWhile_suffix _).mem hu)
  omega

theorem adjoins_cons {t v : Token} {vs : List Token} (hv : v.kind ≠ .newline) :
    Adjoins t (v :: vs) ↔ v.kind = .rbracket ∧ v.offset = t.offset + 1 := by
  have hdrop : dropLineFeeds (v :: vs) = v :: vs := by simp [dropLineFeeds, hv]
  constructor
  · rintro ⟨u, us, hu, h⟩
    rw [hdrop] at hu
    cases hu
    exact h
  · exact fun h => ⟨v, vs, hdrop, h⟩

/-- Tokens at growing offsets. -/
abbrev Ascending (ts : List Token) : Prop := ts.Pairwise (fun t u => t.offset < u.offset)

/-- A closing bracket adjoins another one in both lists or in neither. -/
theorem adjoins_iff {f g : Location → Location} {t u : Token} {ts us : List Token}
    (hk : t.kind = .rbracket) (htu : Twin f g t u) (hrest : List.Forall₂ (Twin f g) ts us)
    (hc : closings (t :: ts) = closings (u :: us)) (ht : Ascending (t :: ts))
    (hu : Ascending (u :: us)) : Adjoins t ts ↔ Adjoins u us := by
  cases hrest with
  | nil => simp [not_adjoins_nil]
  | @cons v w vs ws hvw hrest =>
      obtain ⟨hlt, ht'⟩ := List.pairwise_cons.mp ht
      obtain ⟨hlt', hu'⟩ := List.pairwise_cons.mp hu
      by_cases hv : v.kind = .newline
      · have hw : w.kind = .newline := hvw.kind.trans hv
        have hleft := not_adjoins_newline hv (hlt v (List.mem_cons_self ..))
          (List.pairwise_cons.mp ht').1
        have hright := not_adjoins_newline hw (hlt' w (List.mem_cons_self ..))
          (List.pairwise_cons.mp hu').1
        exact iff_of_false hleft hright
      · have hw : w.kind ≠ .newline := by rwa [hvw.kind]
        rw [adjoins_cons hv, adjoins_cons hw, hvw.kind]
        have hk' : u.kind = .rbracket := htu.kind.trans hk
        simp only [closings, List.cons.injEq, hk, hk', hvw.kind, beq_self_eq_true,
          Bool.true_and] at hc
        by_cases hv' : v.kind = .rbracket
        · simpa [hv'] using congrArg (· = true) hc.1
        · simp [hv']

/-! ## Two sources that end alike -/

/-- Two sources that end alike, and whose outcomes are to be the same in any case. -/
def Pairing.between (f g : Location → Location) (e e' : Except LexError Token)
    (h : SameEnd f g e e') : Pairing where
  left := f
  right := g
  leftEnd := e
  rightEnd := e'
  stops _ us := us = []
  lenient := False
  ends hus := Or.inl ⟨hus, h⟩

theorem closings_tail {t : Token} {ts us : List Token} {u : Token}
    (h : closings (t :: ts) = closings (u :: us)) (hl : ts.length = us.length) :
    closings ts = closings us := by
  cases ts with
  | nil =>
      have hnil : us = [] := List.length_eq_zero_iff.mp hl.symm
      rw [hnil]
  | cons v vs =>
      cases us with
      | nil => cases hl
      | cons w ws =>
          simp only [closings, List.cons.injEq] at h
          exact h.2

/-- Tokens that are twins, and close alike, are read alike. -/
theorem reflows_of_twins {P : Pairing} {ts us : List Token} (htwin : List.Forall₂ P.Twins ts us)
    (hc : closings ts = closings us) (ht : Ascending ts) (hu : Ascending us)
    (hstop : ∀ c, P.stops c []) (c : Scope) : P.Reflows c ts us := by
  induction htwin generalizing c with
  | nil => exact .stop (hstop c)
  | @cons t u ts us htu hrest ih =>
      have hadj : c.closesElement t.kind = true → (Adjoins t ts ↔ Adjoins u us) := by
        intro hclose
        exact adjoins_iff (Scope.kind_of_closesElement hclose) htu hrest hc ht hu
      have htail := ih (closings_tail hc hrest.length_eq) (List.pairwise_cons.mp ht).2
        (List.pairwise_cons.mp hu).2 (c.step t.kind)
      exact .cons htu hadj htail

/-- Two sources whose tokens are read alike, and that end alike, come to the same. -/
theorem outcome_of_reflows {P : Pairing} (hstrict : ¬ P.lenient) {r r' : Reader}
    (h : P.Reflows .start r.remaining.1 r'.remaining.1) (hl : r.remaining.2 = P.leftEnd)
    (hr : r'.remaining.2 = P.rightEnd) :
    relocateOutcome P.left (parseFeed ⟨r, []⟩) = relocateOutcome P.right (parseFeed ⟨r', []⟩) :=
  outcome_parseFeed hstrict ⟨rfl, rfl, hl, hr, h.ahead true⟩

/-- Two sources whose tokens are twins, and close alike, come to the same. -/
theorem outcome_of_twins {f g : Location → Location} {r r' : Reader}
    (htwin : List.Forall₂ (Twin f g) r.remaining.1 r'.remaining.1)
    (hc : closings r.remaining.1 = closings r'.remaining.1)
    (hend : SameEnd f g r.remaining.2 r'.remaining.2) :
    relocateOutcome f (parseFeed ⟨r, []⟩) = relocateOutcome g (parseFeed ⟨r', []⟩) :=
  outcome_of_reflows (P := .between f g _ _ hend) id
    (reflows_of_twins htwin hc r.remaining_offsets.2 r'.remaining_offsets.2 (fun _ => rfl) _)
    rfl rfl

/-- Tokens at other places close the same brackets. -/
theorem closings_of_shifted {f g : Location → Location} {d : Nat} {ts us : List Token}
    (h : List.Forall₂ (Reader.Shifted f g d) ts us) : closings ts = closings us := by
  induction h with
  | nil => rfl
  | cons htu hrest ih =>
      cases hrest with
      | nil => rfl
      | cons hvw _ =>
          have hoff := htu.offset
          have hoff' := hvw.offset
          simp only [closings, htu.twin.kind, hvw.twin.kind, ih, hoff, hoff']
          congr 2
          simp only [beq_eq_beq]
          omega

/-- A text is read as the same tokens in another place, places apart, and closes alike. -/
theorem Reader.remaining_elsewhere {r r' : Reader} (h : r'.rest = r.rest) :
    List.Forall₂ (Twin Location.toStart Location.toStart) r.remaining.1 r'.remaining.1 ∧
      closings r.remaining.1 = closings r'.remaining.1 ∧
      SameEnd Location.toStart Location.toStart r.remaining.2 r'.remaining.2 := by
  rcases Nat.le_total r.cursor.offset r'.cursor.offset with hle | hle
  · obtain ⟨hshift, hend⟩ := remaining_shift (f := Location.toStart) (g := Location.toStart)
      (fun _ _ _ _ => rfl) h (Nat.add_sub_of_le hle).symm rfl
    exact ⟨hshift.imp fun _ _ h => h.twin, closings_of_shifted hshift, hend⟩
  · obtain ⟨hshift, hend⟩ := remaining_shift (f := Location.toStart) (g := Location.toStart)
      (fun _ _ _ _ => rfl) h.symm (Nat.add_sub_of_le hle).symm rfl
    exact ⟨(hshift.imp fun _ _ h => h.twin.symm).flip, (closings_of_shifted hshift).symm,
      hend.symm⟩

/-- What is read from another place is read alike. -/
theorem reflows_of_shifted {P : Pairing} {d : Nat} {r r' : Reader}
    (h : List.Forall₂ (Reader.Shifted P.left P.right d) r.remaining.1 r'.remaining.1)
    (hstop : ∀ c, P.stops c []) (c : Scope) :
    P.Reflows c r.remaining.1 r'.remaining.1 :=
  reflows_of_twins (h.imp fun _ _ h => h.twin) (closings_of_shifted h) r.remaining_offsets.2
    r'.remaining_offsets.2 hstop c

/-! ## Outcomes without places -/

/-- Both sources are accepted with trees that differ in places alone, or both are refused at a
token of one kind and lexeme with one list of continuations, or both are nested too deeply. -/
inductive SameOutcome : Except Error Program → Except Error Program → Prop where
  | accepted {p q : Program} (h : p.erase = q.erase) : SameOutcome (.ok p) (.ok q)
  | unexpected {e e' : SyntaxError} (kind : e.kind = e'.kind) (lexeme : e.lexeme = e'.lexeme)
      (expected : e.expected = e'.expected) :
      SameOutcome (.error (.unexpected e)) (.error (.unexpected e'))
  | tooDeep (loc loc' : Location) : SameOutcome (.error (.tooDeep loc)) (.error (.tooDeep loc'))

/-- The last token of a source closes no bracket. -/
theorem closings_append_eof (ts : List Token) {eof : Token} (heof : eof.kind = .eof) :
    closings (ts ++ [eof]) = closings ts ++ List.replicate (min 1 ts.length) false := by
  induction ts with
  | nil => rfl
  | cons t ts ih =>
      cases ts with
      | nil => simp [closings, heof]
      | cons u ts =>
          have hmin : min 1 (t :: u :: ts).length = min 1 (u :: ts).length := by
            simp only [List.length_cons]
            omega
          simp only [List.cons_append, closings, hmin] at ih ⊢
          rw [ih]

theorem forall₂_twin {ts us : List Token}
    (h : ts.map (fun t => (t.kind, t.lexeme)) = us.map fun t => (t.kind, t.lexeme)) :
    List.Forall₂ (Twin Location.toStart Location.toStart) ts us := by
  induction ts generalizing us with
  | nil =>
      have hnil : us = [] := by simpa using h.symm
      rw [hnil]
      exact .nil
  | cons t ts ih =>
      cases us with
      | nil => cases h
      | cons u us =>
          simp only [List.map_cons, List.cons.injEq, Prod.mk.injEq] at h
          exact .cons ⟨h.1.1.symm, h.1.2.symm, rfl⟩ (ih h.2)

/-- A lexical error is how the tokens end. -/
theorem Tape.ending_of_front {s : Tape} {e : LexError} (h : s.front = .error e) :
    s.ending = .error e := by
  unfold front head at h
  split at h
  · cases h
  · rwa [shown_ending] at h

theorem Tape.ending_of_ahead {s : Tape} {n : Nat} {e : LexError} (h : s.ahead n = .error e) :
    s.ending = .error e := by
  induction n generalizing s with
  | zero => exact ending_of_front h
  | succ n ih =>
      rw [ahead] at h
      split at h
      · rename_i hf
        cases h
        exact ending_of_front hf
      · split at h
        · cases h
        · rw [← s.past_ending]
          exact ih h

theorem Parse.ending_of_lexical {α : Type} {p : Parse α} {s : Tape} {e : LexError}
    (h : p.play s = .error (.lexical e)) : s.ending = .error e := by
  induction p generalizing s with
  | done a => cases h
  | reject expected =>
      rw [play] at h
      split at h <;> cases h
      rename_i hf
      exact Tape.ending_of_front hf
  | tooDeep =>
      rw [play] at h
      split at h <;> cases h
      rename_i hf
      exact Tape.ending_of_front hf
  | ahead n k ih =>
      rw [play] at h
      split at h
      · rename_i ha
        cases h
        exact Tape.ending_of_ahead ha
      · exact ih _ h
  | take k ih =>
      rw [play] at h
      split at h
      · rename_i hf
        cases h
        exact Tape.ending_of_front hf
      · rw [← s.past_ending]
        exact ih _ h
  | skipLines k ih =>
      rw [play] at h
      split at h
      · rename_i hb
        cases h
        exact Tape.ending_of_front (s := s.enter .free) hb
      · exact ih _ (s := s.afterLines) h
  | beyondLines k ih =>
      rw [play] at h
      split at h
      · rename_i hb
        cases h
        exact Tape.ending_of_front (s := s.enter .free) hb
      · exact ih _ h
  | enter l k ih => exact ih () (s := s.enter l) h
  | leave k ih => exact ih () (s := s.leave) h
  | inBrackets k ih => exact ih _ h

/-- What is read to the end is not refused for its characters. -/
theorem parseFeed_ne_lexical {r : Reader} {eof : Token} (h : r.remaining.2 = .ok eof)
    (e : LexError) : parseFeed ⟨r, []⟩ ≠ .error (.lexical e) := by
  intro hp
  rw [parseFeed_play] at hp
  generalize hx : Parse.play _ (Feed.tape ⟨r, []⟩) = x at hp
  cases x with
  | ok y => cases hp
  | error e' =>
      cases hp
      have hend : (Feed.tape ⟨r, []⟩).ending = .error e := Parse.ending_of_lexical hx
      rw [show (Feed.tape ⟨r, []⟩).ending = r.remaining.2 from rfl, h] at hend
      cases hend

theorem sameOutcome_of_relocate {x y : Except Error Program}
    (h : relocateOutcome Location.toStart x = relocateOutcome Location.toStart y)
    (hx : ∀ e, x ≠ .error (.lexical e)) : SameOutcome x y := by
  cases x with
  | ok p =>
      cases y with
      | error e => cases h
      | ok q =>
          simp only [relocateOutcome, Program.relocate_toStart, Except.ok.injEq] at h
          exact .accepted h
  | error e =>
      cases y with
      | ok q => cases h
      | error e' =>
          simp only [relocateOutcome, Except.error.injEq] at h
          cases e with
          | lexical e => exact absurd rfl (hx e)
          | unexpected e =>
              cases e' with
              | unexpected e' =>
                  simp only [Error.relocate, SyntaxError.relocate, Error.unexpected.injEq,
                    SyntaxError.mk.injEq] at h
                  exact .unexpected h.1 h.2.1 h.2.2.2
              | lexical | tooDeep => cases h
          | tooDeep loc =>
              cases e' with
              | tooDeep loc' => exact .tooDeep loc loc'
              | lexical | unexpected => cases h

/-- **Blanks and comments never influence the parse**: two sources whose tokens agree in kind and
lexeme, comments left out, and whose closing brackets adjoin at the same places come to the same. -/
theorem parse_of_same_tokens {bytes bytes' : List UInt8} {ts ts' : List Token}
    (h : lex bytes = .ok ts) (h' : lex bytes' = .ok ts')
    (htokens : (withoutComments ts).map (fun t => (t.kind, t.lexeme)) =
      (withoutComments ts').map fun t => (t.kind, t.lexeme))
    (hclosings : closings (withoutComments ts) = closings (withoutComments ts')) :
    SameOutcome (parse bytes) (parse bytes') := by
  obtain ⟨text, us, k, htext, rfl, hr⟩ := Reader.reaches_of_lex h
  obtain ⟨text', us', k', htext', rfl, hr'⟩ := Reader.reaches_of_lex h'
  have hremaining := Reader.remaining_of_reaches_end hr
  have hremaining' := Reader.remaining_of_reaches_end hr'
  have hsplit (us : List Token) (k : Cursor) : withoutComments (us ++ [Reader.eofAt k]) =
      withoutComments us ++ [Reader.eofAt k] := by
    simp [withoutComments, Reader.eofAt]
  rw [hsplit, hsplit, List.map_append, List.map_append] at htokens
  rw [hsplit, hsplit, closings_append_eof _ rfl, closings_append_eof _ rfl] at hclosings
  have htwin := forall₂_twin (List.append_inj_left' htokens rfl)
  have hlast := forall₂_twin (List.append_inj_right' htokens rfl)
  have hc : closings (withoutComments us) = closings (withoutComments us') := by
    rw [htwin.length_eq] at hclosings
    exact List.append_inj_left' hclosings rfl
  have hend : SameEnd Location.toStart Location.toStart (Reader.ofText text).remaining.2
      (Reader.ofText text').remaining.2 := by
    rw [hremaining, hremaining']
    cases hlast with
    | cons htu => exact .eof htu
  have houtcome : relocateOutcome Location.toStart (parseText text) =
      relocateOutcome Location.toStart (parseText text') :=
    outcome_of_twins (by rwa [hremaining, hremaining']) (by rwa [hremaining, hremaining']) hend
  rw [parse, parse, htext, htext']
  exact sameOutcome_of_relocate houtcome (parseFeed_ne_lexical (by rw [hremaining]))

/-- Blanks may stand around the brackets of an element subscript, but not between the two that
close it. -/
theorem parse_of_same_tokens_of_element :
    let source := "x[[1]]#".toUTF8.data.toList
    let source' := "x [[1 ]]".toUTF8.data.toList
    ∃ ts ts', lex source = .ok ts ∧ lex source' = .ok ts' ∧
      SameOutcome (parse source) (parse source') := by
  have hlex : lex "x[[1]]#".toUTF8.data.toList = .ok
      [⟨.ident, "x", ⟨1, 1⟩, 0⟩, ⟨.lbracket2, "[[", ⟨1, 2⟩, 1⟩, ⟨.num .integer, "1", ⟨1, 4⟩, 3⟩,
        ⟨.rbracket, "]", ⟨1, 5⟩, 4⟩, ⟨.rbracket, "]", ⟨1, 6⟩, 5⟩, ⟨.comment, "#", ⟨1, 7⟩, 6⟩,
        ⟨.eof, "", ⟨1, 8⟩, 7⟩] := by decide +kernel
  have hlex' : lex "x [[1 ]]".toUTF8.data.toList = .ok
      [⟨.ident, "x", ⟨1, 1⟩, 0⟩, ⟨.lbracket2, "[[", ⟨1, 3⟩, 2⟩, ⟨.num .integer, "1", ⟨1, 5⟩, 4⟩,
        ⟨.rbracket, "]", ⟨1, 7⟩, 6⟩, ⟨.rbracket, "]", ⟨1, 8⟩, 7⟩, ⟨.eof, "", ⟨1, 9⟩, 8⟩] := by
    decide +kernel
  exact ⟨_, _, hlex, hlex', parse_of_same_tokens hlex hlex' (by rfl) (by rfl)⟩

end RSource
