import RSource.Proofs.Concatenation
import RSource.Proofs.Faults
import RSource.Proofs.PartingExpression

/-!
# Where a source is refused

A source is refused at a token, and nothing behind that token has been looked at.

* `Precedes` — the tokens of a source before a token of it.
* `parseText_play` — the bound on the items of a list does not matter.
* `Refusal` — the program on a tape is refused at the token behind some others.
* `Beside` — a tape that goes on in its own way behind tokens like those.
* `Refusal.again` — **where the token comes again, it is refused again**.
* `Refusal.next` — **where one that is expected comes last, the parse gets past it**.
* `RefusedAt` — a source is refused at a token of it.
* `refused_by_prefix` — **a syntax error depends only on what precedes it**.
-/

namespace RSource

/-! ## The tokens before a token -/

/-- The tokens, comments included, are all that stand before the token in the source. -/
def Precedes (bytes : List UInt8) (ts : List Token) (t : Token) : Prop :=
  ∃ text r after, decodeSource bytes = .ok text ∧ Reader.Reaches (.ofText text) ts r ∧
    r.next = .ok (t, after)

namespace Reader

variable {r r₁ r₂ after after' : Reader} {ts us : List Token} {t u : Token}

theorem next_of_reaches_nil (h : Reaches r [] r₁) : r₁.next = r.next := by
  cases h with
  | here => rfl
  | blanks => exact next_skipBlanks r

/-- What is read behind a token starts behind where it does. -/
theorem Reaches.offset_lt (h : Reaches r (t :: ts) r₁) (hn : r₁.next = .ok (u, after)) :
    ∃ r', r.next = .ok (t, r') ∧ t.offset < u.offset := by
  cases h with
  | step ht hk hr =>
      have := next_offset_lt ht hk
      have := hr.offsets.2.2.1
      have := (next_offset hn).1
      exact ⟨_, ht, by omega⟩

/-- Where a token starts, no other one does. -/
theorem Reaches.unique (h : Reaches r ts r₁) (hn : r₁.next = .ok (t, after))
    (h' : Reaches r us r₂) (hn' : r₂.next = .ok (u, after')) (ho : t.offset = u.offset) :
    ts = us ∧ t = u := by
  induction ts generalizing r us with
  | nil =>
      rw [next_of_reaches_nil h] at hn
      cases us with
      | nil =>
          rw [next_of_reaches_nil h', hn] at hn'
          cases hn'
          exact ⟨rfl, rfl⟩
      | cons v us =>
          obtain ⟨r', hv, hlt⟩ := h'.offset_lt hn'
          rw [hn] at hv
          cases hv
          omega
  | cons v ts ih =>
      cases us with
      | nil =>
          rw [next_of_reaches_nil h'] at hn'
          obtain ⟨r', hv, hlt⟩ := h.offset_lt hn
          rw [hn'] at hv
          cases hv
          omega
      | cons w us =>
          cases h with
          | step hv hk hr =>
              cases h' with
              | step hw hk' hr' =>
                  rw [hv] at hw
                  cases hw
                  obtain ⟨rfl, rfl⟩ := ih hr hr'
                  exact ⟨rfl, rfl⟩

/-- The tokens before one of those left, comments included. -/
theorem exists_reaches {pre stem : List Token} (h : r.remaining.1 = pre ++ stem)
    (ht : Heads stem r.remaining.2 t) :
    ∃ ts r₁ after, Reaches r ts r₁ ∧ withoutComments ts = pre ∧ r₁.next = .ok (t, after) := by
  induction r using reading generalizing pre with
  | error r e he =>
      rw [remaining_error he] at h ht
      obtain ⟨rfl, rfl⟩ := List.append_eq_nil_iff.mp h.symm
      rcases ht with ⟨us, hus⟩ | ⟨-, hend⟩ <;> contradiction
  | eof r u after hu hk =>
      rw [remaining_eof hu hk] at h ht
      obtain ⟨rfl, rfl⟩ := List.append_eq_nil_iff.mp h.symm
      rcases ht with ⟨us, hus⟩ | ⟨-, hend⟩
      · cases hus
      · cases hend
        exact ⟨[], r, after, .here r, rfl, hu⟩
  | step r u after hu hk ih =>
      rw [remaining_ok hu, if_neg hk] at h ht
      by_cases hc : u.kind = .comment
      · rw [if_pos hc] at h ht
        obtain ⟨ts, r₁, after₁, hr, hts, hn⟩ := ih h ht
        exact ⟨u :: ts, r₁, after₁, .step hu hk hr, by simpa [withoutComments, hc] using hts, hn⟩
      · rw [if_neg hc] at h ht
        cases pre with
        | nil =>
            rw [List.nil_append] at h
            subst h
            obtain ⟨us, hus⟩ := ht.resolve_right (by simp)
            cases hus
            exact ⟨[], r, after, .here r, rfl, hu⟩
        | cons v pre =>
            injection h with hv h
            subst hv
            obtain ⟨ts, r₁, after₁, hr, hts, hn⟩ := ih h ht
            refine ⟨u :: ts, r₁, after₁, .step hu hk hr, ?_, hn⟩
            rw [withoutComments_cons, hts]
            simp [withoutComments, hc]

end Reader

namespace Precedes

variable {bytes : List UInt8} {ts us : List Token} {t u : Token}

theorem of_lex (h : lex bytes = .ok (ts ++ t :: us)) : Precedes bytes ts t := by
  obtain ⟨text, all, k, htext, hall, hr⟩ := Reader.reaches_of_lex h
  rcases List.eq_nil_or_concat us with rfl | ⟨us, x, rfl⟩
  · obtain ⟨rfl, heof⟩ := List.append_inj' hall rfl
    cases heof
    exact ⟨text, _, _, htext, hr, Reader.next_end k⟩
  · rw [List.concat_eq_append, ← List.cons_append, ← List.append_assoc] at hall
    obtain ⟨rfl, -⟩ := List.append_inj' hall rfl
    obtain ⟨r₁, after, h₁, hn, -, -⟩ := hr.split
    exact ⟨text, r₁, after, htext, h₁, hn⟩

/-- The place of a token tells which one it is, unless the source is too long. -/
theorem unique (h : Precedes bytes ts t) (h' : Precedes bytes us u) (hl : t.loc = u.loc)
    (hn : bytes.length < UInt32.size - 1) : ts = us ∧ t = u := by
  obtain ⟨text, r, after, htext, hr, ht⟩ := h
  obtain ⟨text', r', after', htext', hr', hu⟩ := h'
  rw [htext] at htext'
  cases htext'
  have hlength : text.length < UInt32.size - 1 :=
    Nat.lt_of_le_of_lt (length_le_of_decodeSource htext) hn
  have hstands := (hr.standsIn (Reader.standsIn_ofText text)).at_token ht
  have hstands' := (hr'.standsIn (Reader.standsIn_ofText text)).at_token hu
  have hirrefl {l l' : Location} (h : Location.Earlier text l l') : l ≠ l' := by
    rintro rfl
    have hlt := h.lt hlength
    rw [Location.lt_def, UInt32.lt_iff_toNat_lt, UInt32.lt_iff_toNat_lt] at hlt
    omega
  refine hr.unique ht hr' hu ?_
  rcases Nat.lt_trichotomy t.offset u.offset with hlt | heq | hlt
  · exact absurd hl (hirrefl (hstands.earlier hstands' hlt))
  · exact heq
  · exact absurd hl.symm (hirrefl (hstands'.earlier hstands hlt))

end Precedes

/-! ## The bound on lists -/

/-- Two tapes that end alike, of which the second one has line feeds added, come to the same. -/
theorem Pairing.Reflows.play {s r : Tape} {n m : Nat} {hend : SameEnd id id s.ending r.ending}
    (h : (Pairing.between id id _ _ hend).Reflows .start s.tokens r.tokens) (hs : s.layouts = [])
    (hr : r.layouts = []) (hn : s.Within n) (hm : r.Within m) :
    ((Grammar.program n).play s).map Prod.fst = ((Grammar.program m).play r).map Prod.fst := by
  have hmatch := Grammar.matches_statements
    (Grammar.pairs_expression (.between id id _ _ hend) n m maxNesting) .eof
    (fun ho => ho.lenient) ⟨hs, hr, rfl, rfl, h.ahead true⟩ hn hm hn hm
  rw [Grammar.program, Grammar.program, Parse.bind_eq_bind, Parse.bind_eq_bind, Parse.play_bind,
    Parse.play_bind]
  generalize Parse.play _ s = y at hmatch
  generalize Parse.play _ r = z at hmatch
  cases hmatch with
  | ok hes =>
      have hid := (relocateExpressions_id _).symm.trans (hes.trans (relocateExpressions_id _))
      exact congrArg (fun es => Except.ok (Program.mk es)) hid
  | error he =>
      have hid := (Error.relocate_id _).symm.trans (he.trans (Error.relocate_id _))
      exact congrArg Except.error hid
  | waived hl => exact absurd hl id

theorem SameEnd.refl (f : Location → Location) (e : Except LexError Token) : SameEnd f f e e := by
  cases e with
  | error e => exact .fault rfl
  | ok t => exact .eof ⟨rfl, rfl, rfl⟩

/-- **The bound on the items of a list does not matter** where it is long enough for the tokens. -/
theorem play_program {s : Tape} {n m : Nat} (hs : s.layouts = []) (hn : s.Within n)
    (hm : s.Within m) :
    ((Grammar.program n).play s).map Prod.fst = ((Grammar.program m).play s).map Prod.fst := by
  have hsame (c : Scope) (ts : List Token) :
      (Pairing.between id id _ _ (SameEnd.refl id s.ending)).Reflows c ts ts := by
    induction ts generalizing c with
    | nil => exact .stop rfl
    | cons t ts ih => exact .cons ⟨rfl, rfl, rfl⟩ (fun _ => Iff.rfl) (ih _)
  exact (hsame .start s.tokens).play hs hs hn hm

theorem parseText_play {text : List Char} {n : Nat} (hn : (Feed.tape (.ofText text)).Within n) :
    parseText text = ((Grammar.program n).play (Feed.tape (.ofText text))).map Prod.fst := by
  rw [← play_program rfl (Feed.within_tape (.ofText text) (Nat.lt_succ_self _)) hn, parseText,
    parseFeed_play, Grammar.program, Parse.bind_eq_bind, Parse.play_bind]
  generalize Parse.play _ _ = x
  cases x <;> rfl

/-! ## Where a tape is refused -/

variable {n : Nat} {s r : Tape} {pre ws : List Token} {t w : Token} {x : List Continuation}
  {ps : List (Token × Token)}

theorem heads_of_front (h : s.front = .ok t) : Heads s.shown.tokens s.ending t := by
  cases hs : s.shown.tokens with
  | nil =>
      rw [Tape.front, Tape.head_nil hs, Tape.shown_ending] at h
      exact Or.inr ⟨rfl, h⟩
  | cons u us =>
      rw [Tape.front, Tape.head_cons hs] at h
      cases h
      exact Or.inl ⟨us, rfl⟩

/-- The program on the tape is refused at the token behind some others. -/
def Refusal (n : Nat) (s : Tape) (pre : List Token) (t : Token) (x : List Continuation) : Prop :=
  ∃ s', (Grammar.program n).refusal s = some (x, s') ∧ s.tokens = pre ++ s'.shown.tokens ∧
    Heads s'.shown.tokens s.ending t

theorem exists_refusal {e : SyntaxError}
    (h : (Grammar.program n).play s = .error (.unexpected e)) :
    ∃ pre t, Refusal n s pre t e.expected ∧ e = .ofToken t e.expected := by
  obtain ⟨x, s', t, hs', ht, rfl⟩ := Parse.play_unexpected_iff.mp h
  obtain ⟨hsuffix, hending⟩ := Parse.refusal_suffix hs'
  obtain ⟨pre, hpre⟩ := s'.shown_suffix.trans hsuffix
  exact ⟨pre, t, ⟨s', hs', hpre.symm, hending ▸ heads_of_front ht⟩, rfl⟩

/-- The tokens before some point, line feeds left out, end with these two. -/
def lastVisible (ps : List (Token × Token)) : Option (Token × Token) :=
  (ps.filter (·.1.kind ≠ .newline)).getLast?

/-- Behind tokens that are like the given ones, the tape goes on with a token of its own. -/
structure Beside (pre : List Token) (ps : List (Token × Token)) (r : Tape) (ws : List Token)
    (w : Token) : Prop where
  before : ps.map (·.1) = pre
  like : ∀ p ∈ ps, Like p.1 p.2
  alongside : ps.Pairwise Alongside
  layouts : r.layouts = []
  tokens : r.tokens = ps.map (·.2) ++ ws
  heads : Heads ws r.ending w

/-- The tokens before are the same. -/
theorem Beside.self (hr : r.layouts = []) (htokens : r.tokens = pre ++ ws)
    (hheads : Heads ws r.ending w) : Beside pre (pre.map fun u => (u, u)) r ws w := by
  refine ⟨by simp [Function.comp_def], ?_, ?_, hr, by simpa [Function.comp_def], hheads⟩
  · intro p hp
    obtain ⟨u, -, rfl⟩ := List.mem_map.mp hp
    exact ⟨rfl, rfl, rfl⟩
  · rw [List.pairwise_map]
    exact List.pairwise_of_forall fun _ _ _ => Iff.rfl

/-- The parse of another tape comes to the token there as well. -/
theorem Refusal.meets (h : Refusal n s pre t x) (hs : s.layouts = []) (hn : s.Within n)
    (hb : Beside pre ps r ws w) (hn' : r.Within n)
    (hword : Like t w ∨ w.kind ≠ .newline ∧ w.kind ≠ .elseWord ∧ w.kind ≠ .eqAssign)
    (hapart : (t.kind = .newline → (Scope.start.run (pre.map (·.kind))).header = true) ∨
      s.tokens = pre ++ ws ∧ r.ending = s.ending) :
    ∃ F : Parting, F.old = t ∧ F.new = w ∧ F.scope = Scope.start.run (pre.map (·.kind)) ∧
      F.last = lastVisible ps ∧ F.branch = ws ∧ F.branchEnd = r.ending ∧
      F.Meets (Grammar.program n) r x := by
  obtain ⟨s', hs', htokens, hheads⟩ := h
  let F : Parting :=
    { stem := s'.shown.tokens, stemEnd := s.ending, branch := ws, branchEnd := r.ending
      old := t, new := w, scope := Scope.start.run (pre.map (·.kind)), last := lastVisible ps
      heads := hheads, heads' := hb.heads, word := hword
      apart := hapart.imp_right fun ⟨hws, he⟩ =>
        ⟨List.append_cancel_left (hws.symm.trans htokens), he⟩ }
  have hshared : F.Shared .start none ps := by
    refine ⟨hb.like, ?_, by simp, rfl, hb.alongside⟩
    rw [show ps.map (·.1.kind) = pre.map (·.kind) by rw [← hb.before, List.map_map]; rfl]
  have hat : F.At .start [] none n s r :=
    ⟨hs, hb.layouts, rfl, rfl, hn, hn', ps, hshared, by rw [hb.before]; exact htokens, hb.tokens⟩
  exact ⟨F, rfl, rfl, rfl, rfl, rfl, rfl, Parting.follows_program hat x s' hs' rfl⟩

/-- What is expected is known beforehand, and a line feed is refused only before the parenthesis of
a header. -/
theorem Refusal.usual (h : Refusal n s pre t x) (hs : s.layouts = []) (hn : s.Within n) :
    (∀ y ∈ x, y.IsExpected) ∧
      (t.kind = .newline → (Scope.start.run (pre.map (·.kind))).header = true) := by
  obtain ⟨s', hs', htokens, hheads⟩ := id h
  have hb := Beside.self hs htokens hheads
  obtain ⟨F, rfl, -, hscope, -, -, -, hmeets⟩ :=
    h.meets hs hn hb hn (Or.inl ⟨rfl, rfl, rfl⟩) (Or.inr ⟨htokens, rfl⟩)
  exact ⟨hmeets.usual, hscope ▸ hmeets.lines⟩

/-- **Where the token comes again, it is refused again**, whatever stands behind it. -/
theorem Refusal.again (h : Refusal n s pre t x) (hs : s.layouts = []) (hn : s.Within n)
    (hb : Beside pre ps r ws w) (hn' : r.Within n) (hlike : Like t w)
    (hadj : ∀ p ∈ lastVisible ps, Alongside p (t, w)) :
    (Grammar.program n).play r = .error (.unexpected (.ofToken w x)) := by
  obtain ⟨F, rfl, rfl, -, hlast, -, -, hmeets⟩ :=
    h.meets hs hn hb hn' (Or.inl hlike) (Or.inl (h.usual hs hn).2)
  obtain ⟨p', q, r', hplay, hfront, -, -, -, hagain, -⟩ := hmeets.met
  have hrefused := hagain ⟨hlike, hlast ▸ hadj⟩
  rw [hplay]
  have hreply := Parse.exists_reply (p := q) hfront
  generalize q.play r' = result at hreply
  cases hreply with
  | refused hf =>
      cases hrefused _ hf
      rfl
  | taken _ _ hf | tooDeep hf | returned hf | broken hf | moved hf => cases hrefused _ hf

/-- The same tokens are refused at the same one, whatever bounds the items of a list. -/
theorem Refusal.of_prefix {m : Nat} {us vs : List Token} (h : Refusal n s pre t x)
    (hs : s.layouts = []) (hn : s.Within n) (htokens : s.tokens = pre ++ t :: us)
    (hr : r.layouts = []) (hm : r.Within m) (htokens' : r.tokens = pre ++ t :: vs) :
    (Grammar.program m).play r = .error (.unexpected (.ofToken t x)) := by
  have hself {n : Nat} {s r : Tape} {pre ws : List Token} {t : Token} {x : List Continuation}
      (h : Refusal n s pre t x) (hs : s.layouts = []) (hn : s.Within n) (hr : r.layouts = [])
      (hn' : r.Within n) (htokens : r.tokens = pre ++ t :: ws) :
      (Grammar.program n).play r = .error (.unexpected (.ofToken t x)) := by
    refine h.again hs hn (.self hr htokens (Or.inl ⟨ws, rfl⟩)) hn' ⟨rfl, rfl, rfl⟩ ?_
    intro p hp
    obtain ⟨u, -, rfl⟩ := List.mem_map.mp (List.mem_filter.mp (List.mem_of_getLast? hp)).1
    exact fun _ => Iff.rfl
  -- The first bound need not do for the second tape, nor the second for the first; both do for the
  -- tokens that they share.
  let mid : Tape :=
    { tokens := pre ++ [t], ending := .error ⟨.invalidUtf8, .start⟩, layouts := []
      spelled := fun u hu => s.spelled u (by rw [htokens]; simp at hu ⊢; tauto)
      ending_eof := fun u hu => by cases hu }
  have hlength : mid.tokens.length = pre.length + 1 := List.length_append
  have hmidn : mid.Within n := by
    have hlt := hn
    rw [Tape.Within, htokens, List.length_append, List.length_cons] at hlt
    rw [Tape.Within, hlength]
    omega
  have hmidm : mid.Within m := by
    have hlt := hm
    rw [Tape.Within, htokens', List.length_append, List.length_cons] at hlt
    rw [Tape.Within, hlength]
    omega
  have hplay := play_program (s := mid) rfl hmidn hmidm
  rw [hself h hs hn rfl hmidn rfl] at hplay
  generalize hresult : (Grammar.program m).play mid = result at hplay
  cases result with
  | ok y => cases hplay
  | error e =>
      obtain rfl : .unexpected (.ofToken t x) = e := by simpa [Except.map] using hplay
      obtain ⟨pre', t', hrefusal, he⟩ := exists_refusal hresult
      obtain ⟨s', -, hmid, hheads⟩ := id hrefusal
      obtain ⟨ws, hws⟩ := hheads.resolve_right fun ⟨_, hend⟩ => by cases hend
      rw [he]
      have hshared : pre ++ [t] = pre' ++ t' :: ws := by
        rw [← hws]
        exact hmid
      have hother : r.tokens = pre' ++ t' :: (ws ++ vs) := by
        rw [htokens', ← List.singleton_append, ← List.append_assoc, hshared]
        simp
      exact hself hrefusal rfl hmidm hr hm hother

/-- **Where one that is expected comes last, the parse gets past it**: what is at fault then is the
end of the input. -/
theorem Refusal.next (h : Refusal n s pre t x) (hs : s.layouts = []) (hn : s.Within n)
    (hb : Beside pre ps r [w] w) (hn' : r.Within n) {eof : Token} (he : r.ending = .ok eof)
    (hword : w.kind ≠ .newline ∧ w.kind ≠ .elseWord ∧ w.kind ≠ .eqAssign)
    (haccepts : ∃ y ∈ x, y.Accepts w.kind)
    (hadj : w.kind = .rbracket → (Scope.start.run (pre.map (·.kind))).opened.head? = some .half →
      ∀ p ∈ lastVisible ps, p.1.kind = .rbracket → w.offset = p.2.offset + 1) :
    Parse.EndsWell eof ((Grammar.program n).play r) := by
  obtain ⟨F, rfl, rfl, hscope, hlast, hbranch, hend, hmeets⟩ :=
    h.meets hs hn hb hn' (Or.inr hword) (Or.inl (h.usual hs hn).2)
  obtain ⟨p', q, r', hplay, hfront, hpast, hending, -, -, hnext⟩ := hmeets.met
  have hgood := hnext ⟨haccepts, by rwa [hscope, hlast]⟩
  have hlexical {e : LexError} : (Grammar.program n).play r ≠ .error (.lexical e) := by
    intro hfault
    have := Parse.ending_of_lexical hfault
    rw [he] at this
    cases this
  rw [hplay] at hlexical ⊢
  have hreply := Parse.exists_reply (p := q) hfront
  generalize q.play r' = result at hreply hlexical
  cases hreply with
  | taken q' r'' hf hsuffix hending' =>
      rw [hpast, hbranch] at hsuffix
      refine Parse.play_at_end (List.suffix_nil.mp hsuffix) ?_
      rw [hending', hending, hend, he]
  | refused hf | tooDeep hf | moved hf => rcases hgood _ hf with h | h | h <;> cases h
  | returned hf x => exact .ok x
  | broken hf e => exact absurd rfl hlexical

/-! ## Sources -/

theorem tape_of_reaches {text : List Char} {ts : List Token} {r after : Reader}
    (hr : Reader.Reaches (.ofText text) ts r) (hn : r.next = .ok (t, after))
    (hc : t.kind ≠ .comment) (hk : t.kind ≠ .eof) :
    (Feed.tape (.ofText text)).tokens = withoutComments ts ++ t :: after.remaining.1 := by
  have hrest : r.remaining.1 = t :: after.remaining.1 := by
    rw [Reader.remaining_ok hn, if_neg hk, if_neg hc]
  rw [← hrest]
  exact congrArg Prod.fst (Reader.remaining_of_reaches hr)

/-- The token at which a source is refused, and the tape that is refused there. -/
theorem exists_refusal_of_parse {bytes : List UInt8} {e : SyntaxError}
    (h : parse bytes = .error (.unexpected e)) :
    ∃ text ts r t after, decodeSource bytes = .ok text ∧ Reader.Reaches (.ofText text) ts r ∧
      r.next = .ok (t, after) ∧ t.kind ≠ .comment ∧ e = .ofToken t e.expected ∧
      Refusal (text.length + 2) (Feed.tape (.ofText text)) (withoutComments ts) t e.expected := by
  rw [parse] at h
  split at h
  · cases h
  · rename_i text htext
    have hw : (Feed.tape (.ofText text)).Within (text.length + 2) :=
      Feed.within_tape (.ofText text) (Nat.lt_add_of_pos_right (by decide))
    rw [parseText_play hw] at h
    generalize hplay : Parse.play _ _ = result at h
    cases result with
    | ok y => cases h
    | error e' =>
        obtain rfl : e' = .unexpected e := by simpa [Except.map] using h
        obtain ⟨pre, t, hrefusal, he⟩ := exists_refusal hplay
        obtain ⟨s', hs', htokens, hheads⟩ := id hrefusal
        obtain ⟨ts, r, after, hr, rfl, hn⟩ := Reader.exists_reaches htokens hheads
        refine ⟨text, ts, r, t, after, htext, hr, hn, ?_, he, hrefusal⟩
        rcases hheads with ⟨us, hus⟩ | ⟨-, hend⟩
        · have hmem : t ∈ s'.shown.tokens := by rw [hus]; exact List.mem_cons_self ..
          exact (s'.shown.spelled t hmem).ne_comment
        · rw [(Feed.tape (.ofText text)).ending_eof t hend]
          decide

/-- The source is refused at the token behind some others, comments included. The place of the error
tells which token that is, unless the source is too long. -/
structure RefusedAt (bytes : List UInt8) (ts : List Token) (t : Token) (e : SyntaxError) :
    Prop where
  precedes : Precedes bytes ts t
  error : e = .ofToken t e.expected
  unique : bytes.length < UInt32.size - 1 →
    ∀ us u, Precedes bytes us u → u.loc = e.loc → us = ts ∧ u = t

theorem Precedes.refusedAt {bytes : List UInt8} {ts : List Token} {e : SyntaxError}
    (h : Precedes bytes ts t) (he : e = .ofToken t e.expected) : RefusedAt bytes ts t e := by
  refine ⟨h, he, fun hlength us u hu hloc => ?_⟩
  rw [he] at hloc
  exact hu.unique h hloc hlength

/-- **A syntax error depends only on what precedes it**: any source with the same tokens up to the
one that is refused, comments apart, is refused with the same error, whatever stands behind them. -/
theorem refused_by_prefix {bytes : List UInt8} {e : SyntaxError}
    (h : parse bytes = .error (.unexpected e)) :
    ∃ ts t, RefusedAt bytes ts t e ∧
      (t.kind ≠ .eof → ∀ bytes' us, Precedes bytes' us t →
        withoutComments us = withoutComments ts → parse bytes' = .error (.unexpected e)) := by
  obtain ⟨text, ts, r, t, after, htext, hr, hn, hc, he, hrefusal⟩ := exists_refusal_of_parse h
  have hprecedes : Precedes bytes ts t := ⟨text, r, after, htext, hr, hn⟩
  refine ⟨ts, t, hprecedes.refusedAt he, fun hk bytes' us hus hsame => ?_⟩
  obtain ⟨text', r', after', htext', hr', hn'⟩ := hus
  have htape := tape_of_reaches hr hn hc hk
  have htape' := tape_of_reaches hr' hn' hc hk
  rw [hsame] at htape'
  have hw' := Feed.within_tape (.ofText text') (Nat.lt_succ_self _)
  have hplay := hrefusal.of_prefix rfl
    (Feed.within_tape (.ofText text) (Nat.lt_add_of_pos_right (by decide))) htape rfl hw' htape'
  rw [parse, htext']
  show parseText text' = _
  rw [parseText_play hw', hplay, ← he]
  rfl

/-- A call that is not closed is refused at the same token whatever its comment says and whatever
follows. -/
theorem refused_by_prefix_of_call :
    let source := "f(x #1\n z)".toUTF8.data.toList
    let e : SyntaxError := ⟨.ident, "z", ⟨2, 2⟩, [.token .comma, .token .rparen]⟩
    parse source = .error (.unexpected e) ∧
      parse "f(x #2\n z + [".toUTF8.data.toList = .error (.unexpected e) := by
  intro source e
  have hparse : parse source = .error (.unexpected e) := by rfl
  have hlex : lex source = .ok
      ([⟨.ident, "f", ⟨1, 1⟩, 0⟩, ⟨.lparen, "(", ⟨1, 2⟩, 1⟩, ⟨.ident, "x", ⟨1, 3⟩, 2⟩,
          ⟨.comment, "#1", ⟨1, 5⟩, 4⟩, ⟨.newline, "\n", ⟨1, 7⟩, 6⟩] ++
        ⟨.ident, "z", ⟨2, 2⟩, 8⟩ :: [⟨.rparen, ")", ⟨2, 3⟩, 9⟩, ⟨.eof, "", ⟨2, 4⟩, 10⟩]) := by rfl
  have hlex' : lex "f(x #2\n z + [".toUTF8.data.toList = .ok
      ([⟨.ident, "f", ⟨1, 1⟩, 0⟩, ⟨.lparen, "(", ⟨1, 2⟩, 1⟩, ⟨.ident, "x", ⟨1, 3⟩, 2⟩,
          ⟨.comment, "#2", ⟨1, 5⟩, 4⟩, ⟨.newline, "\n", ⟨1, 7⟩, 6⟩] ++
        ⟨.ident, "z", ⟨2, 2⟩, 8⟩ :: [⟨.plus, "+", ⟨2, 4⟩, 10⟩, ⟨.lbracket, "[", ⟨2, 6⟩, 12⟩,
          ⟨.eof, "", ⟨2, 7⟩, 13⟩]) := by rfl
  obtain ⟨ts, t, hrefused, hprefix⟩ := refused_by_prefix hparse
  obtain ⟨rfl, rfl⟩ := hrefused.unique (by decide) _ _ (.of_lex hlex) rfl
  exact ⟨hparse, hprefix (by decide) _ _ (.of_lex hlex') rfl⟩

end RSource
