import RSource.Proofs.Tape

/-!
# What a parse does about the next token

A parse looks at the next visible token, and perhaps beyond it, before it takes it or refuses it.
What it may do about the token is said here without any tape, for whatever stands beyond.

* `Parse.refusal` — where a parse is refused on a tape, and what would be accepted there.
* `Parse.play_unexpected_iff` — a parse fails with a syntax error where it is refused.
* `Reply`, `Parse.Faces` — **what a parse may do about a token in front of it**.
* `Parse.faces_of_refusal` — a refused parse has refused the token in front of it, or taken it.
* `Parse.Replies`, `Parse.exists_reply` — what a parse comes to on a tape begins with a reply to the
  token in front.
* `Parse.play_at_end` — where no token is left, a parse can only be refused at the end.
-/

namespace RSource

namespace Tape

variable {s : Tape} {u : Token}

/-- Where line feeds are ignored, none is visible. -/
theorem ne_newline_of_front (hu : s.front = .ok u) (hf : s.isFree = true) : u.kind ≠ .newline := by
  have hshown : s.shown.tokens = s.tokens.dropWhile (·.kind == .newline) := by
    rw [shown_tokens, if_pos hf]
  cases htokens : s.shown.tokens with
  | nil =>
      rw [front, head_nil htokens] at hu
      have hk := s.shown.ending_eof u hu
      simp [hk]
  | cons v vs =>
      rw [front, head_cons htokens] at hu
      cases hu
      have hhead := List.head?_dropWhile_not (fun t : Token => t.kind == .newline) s.tokens
      rw [← hshown, htokens] at hhead
      simpa using hhead

/-- A visible line feed is the next token of all. -/
theorem tokens_of_newline (hu : s.front = .ok u) (hk : u.kind = .newline) :
    s.isFree = false ∧ ∃ us, s.tokens = u :: us := by
  have hfree : s.isFree = false := by
    cases hf : s.isFree with
    | true => exact absurd hk (ne_newline_of_front hu hf)
    | false => rfl
  have hshown : s.shown.tokens = s.tokens := by simp [shown_tokens, hfree]
  refine ⟨hfree, ?_⟩
  cases htokens : s.tokens with
  | nil =>
      rw [front, head_nil (hshown.trans htokens)] at hu
      have hend := s.shown.ending_eof u hu
      rw [hk] at hend
      cases hend
  | cons v vs =>
      rw [front, head_cons (hshown.trans htokens)] at hu
      cases hu
      exact ⟨vs, rfl⟩

theorem afterLines_suffix_past (hu : s.front = .ok u) (hk : u.kind = .newline) :
    s.afterLines.tokens <:+ s.past.tokens := by
  obtain ⟨hfree, us, htokens⟩ := tokens_of_newline hu hk
  have hpast : s.past.tokens = us := by simp [past_tokens, shown_tokens, hfree, htokens]
  have hdrop : s.afterLines.tokens = us.dropWhile (·.kind == .newline) := by simp [htokens, hk]
  rw [hpast, hdrop]
  exact List.dropWhile_suffix _

/-- Where no line feed is visible, all that passing over line feeds drops is hidden. -/
theorem afterLines_tokens_of_front (hu : s.front = .ok u) (hk : u.kind ≠ .newline) :
    s.afterLines.tokens = s.shown.tokens := by
  rw [shown_tokens]
  split
  · rfl
  · rename_i hf
    rw [afterLines_tokens]
    cases htokens : s.tokens with
    | nil => rfl
    | cons v vs =>
        have hshown : s.shown.tokens = v :: vs := by rw [shown_tokens, if_neg hf, htokens]
        rw [front, head_cons hshown] at hu
        cases hu
        simp [hk]

theorem beyond_eq_front (hu : s.front = .ok u) (hk : u.kind ≠ .newline) : s.beyond = .ok u := by
  rw [beyond, head, afterLines_tokens_of_front hu hk]
  rw [front, head] at hu
  simpa using hu

/-- The token that decides on an `else` is the next one that is no line feed, if it is none. -/
theorem beyond_of_clause (hu : s.clause = .ok u) (hk : u.kind ≠ .newline) : s.beyond = .ok u := by
  unfold clause at hu
  split at hu
  · exact hu
  · exact beyond_eq_front hu hk

/-- Where a fault is found, nothing but line feeds stands before it. -/
theorem afterLines_tokens_of_fault {e : LexError} (he : s.front = .error e) :
    s.afterLines.tokens = s.shown.tokens := by
  have hshown : s.shown.tokens = [] := by
    cases htokens : s.shown.tokens with
    | nil => rfl
    | cons v vs =>
        rw [front, head_cons htokens] at he
        cases he
  rw [hshown]
  rw [shown_tokens] at hshown
  split at hshown
  · exact hshown
  · rw [afterLines_tokens, hshown, List.dropWhile_nil]

/-- Where no line feed is visible, passing over line feeds changes nothing that is. -/
theorem shown_afterLines (hu : s.front = .ok u) (hk : u.kind ≠ .newline) :
    s.afterLines.shown.tokens = s.shown.tokens := by
  have hdrop : s.shown.tokens.dropWhile (·.kind == .newline) = s.shown.tokens := by
    cases htokens : s.shown.tokens with
    | nil => rfl
    | cons v vs =>
        rw [front, head_cons htokens] at hu
        cases hu
        simp [hk]
  rw [shown_tokens, afterLines_tokens_of_front hu hk, hdrop, ite_self]

theorem front_afterLines (hu : s.front = .ok u) (hk : u.kind ≠ .newline) :
    s.afterLines.front = .ok u := by
  rw [front, head, shown_afterLines hu hk]
  rw [front, head] at hu
  simpa using hu

end Tape

namespace Parse

variable {α : Type}

/-! ## Where a parse is refused -/

/-- Where a parse is refused on a tape, with the token that is refused in front, and what would be
accepted instead of it. -/
@[simp] def refusal : Parse α → Tape → Option (List Continuation × Tape)
  | done _, _ => none
  | reject expected, s =>
      match s.front with
      | .error _ => none
      | .ok _ => some (expected, s)
  | tooDeep, _ => none
  | ahead n k, s =>
      match s.ahead n with
      | .error _ => none
      | .ok t => (k t).refusal s
  | take k, s =>
      match s.front with
      | .error _ => none
      | .ok t => (k t).refusal s.past
  | skipLines k, s =>
      match s.beyond with
      | .error _ => none
      | .ok _ => (k ()).refusal s.afterLines
  | beyondLines k, s =>
      match s.beyond with
      | .error _ => none
      | .ok t => (k t.kind).refusal s
  | enter layout k, s => (k ()).refusal (s.enter layout)
  | leave k, s => (k ()).refusal s.leave
  | inBrackets k, s => (k s.inBrackets).refusal s

/-- A parse fails with a syntax error at the token in front of which it is refused. -/
theorem play_unexpected_iff {p : Parse α} {s : Tape} {e : SyntaxError} :
    p.play s = .error (.unexpected e) ↔ ∃ expected s' t, p.refusal s = some (expected, s') ∧
      s'.front = .ok t ∧ e = .ofToken t expected := by
  induction p generalizing s with
  | done a => simp
  | reject expected =>
      rw [play, refusal]
      cases hf : s.front with
      | error e' => simp
      | ok t =>
          constructor
          · intro h
            cases h
            exact ⟨expected, s, t, rfl, hf, rfl⟩
          · rintro ⟨x, s', t', hs, ht, rfl⟩
            cases hs
            rw [hf] at ht
            cases ht
            rfl
  | tooDeep =>
      rw [play, refusal]
      cases s.front <;> simp
  | ahead n k ih =>
      rw [play, refusal]
      cases s.ahead n with
      | error e' => simp
      | ok t => exact ih t
  | take k ih =>
      rw [play, refusal]
      cases s.front with
      | error e' => simp
      | ok t => exact ih t
  | skipLines k ih =>
      rw [play, refusal]
      cases s.beyond with
      | error e' => simp
      | ok t => exact ih ()
  | beyondLines k ih =>
      rw [play, refusal]
      cases s.beyond with
      | error e' => simp
      | ok t => exact ih t.kind
  | enter l k ih => exact ih ()
  | leave k ih => exact ih ()
  | inBrackets k ih => exact ih _

/-- A parse is refused somewhere on its tape. -/
theorem refusal_suffix {p : Parse α} {s s' : Tape} {expected : List Continuation}
    (h : p.refusal s = some (expected, s')) : s'.tokens <:+ s.tokens ∧ s'.ending = s.ending := by
  induction p generalizing s with
  | done a => cases h
  | reject x =>
      rw [refusal] at h
      split at h <;> cases h
      exact ⟨List.suffix_refl _, rfl⟩
  | tooDeep => cases h
  | ahead n k ih =>
      rw [refusal] at h
      split at h
      · cases h
      · exact ih _ h
  | take k ih =>
      rw [refusal] at h
      split at h
      · cases h
      · obtain ⟨hsuffix, hending⟩ := ih _ h
        exact ⟨hsuffix.trans s.past_suffix, hending.trans s.past_ending⟩
  | skipLines k ih =>
      rw [refusal] at h
      split at h
      · cases h
      · obtain ⟨hsuffix, hending⟩ := ih _ h
        exact ⟨hsuffix.trans s.afterLines_suffix, hending⟩
  | beyondLines k ih =>
      rw [refusal] at h
      split at h
      · cases h
      · exact ih _ h
  | enter l k ih => exact ih () (s := s.enter l) h
  | leave k ih => exact ih () (s := s.leave) h
  | inBrackets k ih => exact ih _ h

/-! ## Replies to a token -/

/-- What a parse may do about the token in front of it. -/
inductive Reply where
  | taken
  | refused (expected : List Continuation)
  | tooDeep
  /-- The parse ends before it has taken the token. -/
  | returned
  /-- The parse goes inside or outside brackets first. -/
  | moved
  /-- The parse looks past the token and may find a fault there. -/
  | broken

/-- What a parse may do about a visible token in front of it, whatever stands behind the token. -/
@[simp] def Faces (t : Token) : Parse α → Reply → Prop
  | done _, o => o = .returned
  | reject expected, o => o = .refused expected
  | .tooDeep, o => o = .tooDeep
  | ahead 0 k, o => (k t).Faces t o
  | ahead (_ + 1) k, o => o = .broken ∨ ∃ u, (k u).Faces t o
  | take _, o => o = .taken
  | skipLines k, o => if t.kind = .newline then o = .taken ∨ o = .broken else (k ()).Faces t o
  | beyondLines k, o =>
      if t.kind = .newline then o = .broken ∨ ∃ kind, (k kind).Faces t o else (k t.kind).Faces t o
  | enter _ _, o => o = .moved
  | leave _, o => o = .moved
  | inBrackets k, o => ∃ b, (k b).Faces t o

/-- A refused parse has refused the visible token in front of it, or taken it, or gone inside or
outside brackets first. -/
theorem faces_of_refusal {p : Parse α} {s s' : Tape} {expected : List Continuation} {u : Token}
    (h : p.refusal s = some (expected, s')) (hu : s.front = .ok u) :
    p.Faces u (.refused expected) ∧ s'.front = .ok u ∧ s'.shown.tokens = s.shown.tokens ∨
      p.Faces u .taken ∧ s'.tokens <:+ s.past.tokens ∨ p.Faces u .moved := by
  induction p generalizing s with
  | done a => cases h
  | reject x =>
      rw [refusal, hu] at h
      cases h
      exact Or.inl ⟨rfl, hu, rfl⟩
  | tooDeep => cases h
  | ahead n k ih =>
      rw [refusal] at h
      cases n with
      | zero =>
          rw [Tape.ahead, hu] at h
          exact ih u h hu
      | succ n =>
          split at h
          · cases h
          · rename_i v hv
            rcases ih v h hu with ⟨hf, hrest⟩ | ⟨hf, hrest⟩ | hf
            · exact Or.inl ⟨Or.inr ⟨v, hf⟩, hrest⟩
            · exact Or.inr (Or.inl ⟨Or.inr ⟨v, hf⟩, hrest⟩)
            · exact Or.inr (Or.inr (Or.inr ⟨v, hf⟩))
  | take k ih =>
      rw [refusal, hu] at h
      exact Or.inr (Or.inl ⟨rfl, (refusal_suffix h).1⟩)
  | skipLines k ih =>
      rw [refusal] at h
      split at h
      · cases h
      · by_cases hk : u.kind = .newline
        · refine Or.inr (Or.inl ⟨by simp [hk], ?_⟩)
          exact (refusal_suffix h).1.trans (Tape.afterLines_suffix_past hu hk)
        · have hfront := Tape.front_afterLines hu hk
          have hshown := Tape.shown_afterLines hu hk
          have hpast : s.afterLines.past.tokens = s.past.tokens := by
            rw [Tape.past_tokens, Tape.past_tokens, hshown]
          simp only [Faces, if_neg hk]
          rw [← hpast, ← hshown]
          exact ih () h hfront
  | beyondLines k ih =>
      rw [refusal] at h
      split at h
      · cases h
      · rename_i v hv
        by_cases hk : u.kind = .newline
        · simp only [Faces, if_pos hk]
          rcases ih v.kind h hu with ⟨hf, hrest⟩ | ⟨hf, hrest⟩ | hf
          · exact Or.inl ⟨Or.inr ⟨_, hf⟩, hrest⟩
          · exact Or.inr (Or.inl ⟨Or.inr ⟨_, hf⟩, hrest⟩)
          · exact Or.inr (Or.inr (Or.inr ⟨_, hf⟩))
        · rw [Tape.beyond_eq_front hu hk] at hv
          cases hv
          simp only [Faces, if_neg hk]
          exact ih u.kind h hu
  | enter l k ih => exact Or.inr (Or.inr rfl)
  | leave k ih => exact Or.inr (Or.inr rfl)
  | inBrackets k ih =>
      rcases ih s.inBrackets h hu with ⟨hf, hrest⟩ | ⟨hf, hrest⟩ | hf
      · exact Or.inl ⟨⟨_, hf⟩, hrest⟩
      · exact Or.inr (Or.inl ⟨⟨_, hf⟩, hrest⟩)
      · exact Or.inr (Or.inr ⟨_, hf⟩)

/-- A parse that is refused although it finds a fault has gone inside or outside brackets first. -/
theorem faces_of_fault {p : Parse α} {s s' : Tape} {expected : List Continuation} {e : LexError}
    (h : p.refusal s = some (expected, s')) (he : s.front = .error e) (u : Token) :
    p.Faces u .moved := by
  have hahead : ∀ n, s.ahead n = .error e := by
    intro n
    cases n <;> rw [Tape.ahead, he]
  have hbeyond : s.beyond = .error e := by
    rw [Tape.beyond, Tape.head, Tape.afterLines_tokens_of_fault he]
    rw [Tape.front, Tape.head] at he
    simpa using he
  induction p with
  | done a => cases h
  | reject x =>
      rw [refusal, he] at h
      cases h
  | tooDeep => cases h
  | ahead n k ih =>
      rw [refusal, hahead n] at h
      cases h
  | take k ih =>
      rw [refusal, he] at h
      cases h
  | skipLines k ih =>
      rw [refusal, hbeyond] at h
      cases h
  | beyondLines k ih =>
      rw [refusal, hbeyond] at h
      cases h
  | enter l k ih => rfl
  | leave k ih => rfl
  | inBrackets k ih => exact ⟨_, ih _ h⟩

/-- What the result of a parse begins with: its reply to the visible token `w` in front of it. -/
inductive Replies (w : Token) (p : Parse α) (r : Tape) : Except Error (α × Tape) → Prop where
  | taken (q : Parse α) (r' : Tape) (h : p.Faces w .taken) (hsuffix : r'.tokens <:+ r.past.tokens)
      (hending : r'.ending = r.ending) : Replies w p r (q.play r')
  | refused {expected : List Continuation} (h : p.Faces w (.refused expected)) :
      Replies w p r (.error (.unexpected (.ofToken w expected)))
  | tooDeep (h : p.Faces w .tooDeep) : Replies w p r (.error (.tooDeep w.loc))
  | returned (h : p.Faces w .returned) (x : α × Tape) : Replies w p r (.ok x)
  | broken (h : p.Faces w .broken) (e : LexError) : Replies w p r (.error (.lexical e))
  | moved (h : p.Faces w .moved) (x : Except Error (α × Tape)) : Replies w p r x

theorem Replies.imp {w : Token} {p p' : Parse α} {r r' : Tape} {x : Except Error (α × Tape)}
    (h : Replies w p r x) (hp : ∀ o, p.Faces w o → p'.Faces w o)
    (hr : r.past.tokens <:+ r'.past.tokens) (he : r.ending = r'.ending) :
    Replies w p' r' x := by
  cases h with
  | taken q r'' h hsuffix hending =>
      exact .taken q r'' (hp _ h) (hsuffix.trans hr) (hending.trans he)
  | refused h => exact .refused (hp _ h)
  | tooDeep h => exact .tooDeep (hp _ h)
  | returned h x => exact .returned (hp _ h) x
  | broken h e => exact .broken (hp _ h) e
  | moved h x => exact .moved (hp _ h) x

/-- **What a parse comes to on a tape begins with a reply to the token in front.** -/
theorem exists_reply {p : Parse α} {r : Tape} {w : Token} (hw : r.front = .ok w) :
    Replies w p r (p.play r) := by
  induction p generalizing r with
  | done a => exact .returned (by simp) _
  | reject expected =>
      rw [play, hw]
      exact .refused rfl
  | tooDeep =>
      rw [play, hw]
      exact .tooDeep rfl
  | ahead n k ih =>
      rw [play]
      cases n with
      | zero =>
          rw [Tape.ahead, hw]
          exact (ih w hw).imp (fun _ h => h) (List.suffix_refl _) rfl
      | succ n =>
          split
          · exact .broken (by simp) _
          · rename_i v hv
            exact (ih v hw).imp (fun _ h => Or.inr ⟨v, h⟩) (List.suffix_refl _) rfl
  | take k ih =>
      rw [play, hw]
      exact .taken (k w) r.past rfl (List.suffix_refl _) r.past_ending
  | skipLines k ih =>
      rw [play]
      by_cases hk : w.kind = .newline
      · split
        · exact .broken (by simp [hk]) _
        · exact .taken (k ()) r.afterLines (by simp [hk]) (Tape.afterLines_suffix_past hw hk) rfl
      · rw [Tape.beyond_eq_front hw hk]
        have hpast : r.afterLines.past.tokens = r.past.tokens := by
          rw [Tape.past_tokens, Tape.past_tokens, Tape.shown_afterLines hw hk]
        exact (ih () (Tape.front_afterLines hw hk)).imp (fun _ h => by simpa [hk] using h)
          (hpast ▸ List.suffix_refl _) rfl
  | beyondLines k ih =>
      rw [play]
      by_cases hk : w.kind = .newline
      · split
        · exact .broken (by simp [hk]) _
        · rename_i v hv
          refine (ih v.kind hw).imp (fun _ h => ?_) (List.suffix_refl _) rfl
          simp only [Faces, if_pos hk]
          exact Or.inr ⟨v.kind, h⟩
      · rw [Tape.beyond_eq_front hw hk]
        exact (ih w.kind hw).imp (fun _ h => by simpa [hk] using h) (List.suffix_refl _) rfl
  | enter l k ih => exact .moved (by simp) _
  | leave k ih => exact .moved (by simp) _
  | inBrackets k ih => exact (ih _ hw).imp (fun _ h => ⟨_, h⟩) (List.suffix_refl _) rfl

/-! ## Where no token is left -/

/-- The parse succeeds, or it is refused or nested too deeply at the end of the input. -/
inductive EndsWell (eof : Token) : Except Error (α × Tape) → Prop where
  | ok (x : α × Tape) : EndsWell eof (.ok x)
  | unexpected (expected : List Continuation) :
      EndsWell eof (.error (.unexpected (.ofToken eof expected)))
  | tooDeep : EndsWell eof (.error (.tooDeep eof.loc))

/-- Where no token is left, a parse can only be refused at the end of the input. -/
theorem play_at_end {p : Parse α} {r : Tape} {eof : Token} (h : r.tokens = [])
    (he : r.ending = .ok eof) : EndsWell eof (p.play r) := by
  have hfront {r : Tape} (h : r.tokens = []) (he : r.ending = .ok eof) : r.front = .ok eof := by
    rw [Tape.front, Tape.head_nil (List.suffix_nil.mp (h ▸ r.shown_suffix)), Tape.shown_ending, he]
  induction p generalizing r with
  | done a => exact .ok _
  | reject expected =>
      rw [play, hfront h he]
      exact .unexpected expected
  | tooDeep =>
      rw [play, hfront h he]
      exact .tooDeep
  | ahead n k ih =>
      have hahead : r.ahead n = .ok eof := by
        cases n with
        | zero => exact hfront h he
        | succ n => rw [Tape.ahead, hfront h he]; simp [r.ending_eof eof he]
      rw [play, hahead]
      exact ih eof h he
  | take k ih =>
      rw [play, hfront h he]
      exact ih eof (List.suffix_nil.mp (h ▸ r.past_suffix)) (r.past_ending.trans he)
  | skipLines k ih =>
      have hlines := List.suffix_nil.mp (h ▸ r.afterLines_suffix)
      have hbeyond : r.beyond = .ok eof := (Tape.head_nil hlines).trans he
      rw [play, hbeyond]
      exact ih () hlines he
  | beyondLines k ih =>
      have hlines := List.suffix_nil.mp (h ▸ r.afterLines_suffix)
      have hbeyond : r.beyond = .ok eof := (Tape.head_nil hlines).trans he
      rw [play, hbeyond]
      exact ih _ h he
  | enter l k ih => exact ih () (r := r.enter l) h he
  | leave k ih => exact ih () (r := r.leave) h he
  | inBrackets k ih => exact ih _ h he

end Parse

end RSource
