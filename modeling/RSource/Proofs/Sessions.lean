import RSource.Proofs.Standing

/-!
# Sessions

A session is asked for its next token, or probed at any cursor, in whatever order. What it reads is
the tokens of its text one after the other, and then its end or its fault over and over.

* `Reader.recite` — what a reader reads in so many calls.
* `Recites` — the tokens of a text before its end or its fault, and that end or fault.
* `recital` — some tokens and then one result over and over.
* `Session.asked`, `Session.after` — the results of the steps of one kind, and the session behind
  all steps.
* `Session.asked_next`, `Session.asked_follow` — **the steps of one kind read as a reader does**,
  whatever stands between them.
* `sessions_recite` — **every session recites its text**, and its cursor stands behind what has
  been read.
-/

namespace RSource

/-! ## What a reader recites -/

namespace Reader

/-- What a reader finds: a token or a fault. -/
def answer (r : Reader) : Except LexError Token := r.next.map (·.1)

/-- The reader past the next token. A fault is not passed. -/
def passed (r : Reader) : Reader :=
  match r.next with
  | .error _ => r
  | .ok (_, after) => after

/-- What a reader finds in so many calls. -/
def recite : Nat → Reader → List (Except LexError Token)
  | 0, _ => []
  | n + 1, r => r.answer :: recite n r.passed

variable {r r' after : Reader} {t : Token} {e : LexError}

theorem answer_ok (h : r.next = .ok (t, after)) : r.answer = .ok t := by rw [answer, h]; rfl

theorem answer_error (h : r.next = .error e) : r.answer = .error e := by rw [answer, h]; rfl

theorem passed_ok (h : r.next = .ok (t, after)) : r.passed = after := by rw [passed, h]

theorem passed_error (h : r.next = .error e) : r.passed = r := by rw [passed, h]

/-- A fault is found over and over. -/
theorem recite_error (h : r.next = .error e) (n : Nat) :
    recite n r = List.replicate n (.error e) := by
  induction n with
  | zero => rfl
  | succ n ih => rw [recite, answer_error h, passed_error h, ih, List.replicate_succ]

/-- So is the end of the input. -/
theorem recite_end (k : Cursor) (n : Nat) :
    recite n ⟨k, []⟩ = List.replicate n (.ok (eofAt k)) := by
  induction n with
  | zero => rfl
  | succ n ih =>
      rw [recite, answer_ok (next_end k), passed_ok (next_end k), ih, List.replicate_succ]

theorem recite_skipBlanks (r : Reader) (n : Nat) : recite n r.skipBlanks = recite n r := by
  cases n with
  | zero => rfl
  | succ n =>
      cases h : r.next with
      | error e => rw [recite_error h, recite_error ((next_skipBlanks r).trans h)]
      | ok p =>
          have h' := (next_skipBlanks r).trans h
          rw [recite, recite, answer_ok h, answer_ok h', passed_ok h, passed_ok h']

end Reader

/-- Some tokens and then one result over and over, in so many calls. -/
def recital (ts : List Token) (last : Except LexError Token) (n : Nat) :
    List (Except LexError Token) :=
  (ts.map Except.ok ++ List.replicate n last).take n

/-- Reading recites the tokens that it passes, and then what is found behind them. -/
theorem Reader.recite_of_reaches {r r' : Reader} {ts : List Token} {last : Except LexError Token}
    (h : Reaches r ts r') (hr : ∀ n, recite n r' = List.replicate n last) (n : Nat) :
    recite n r = recital ts last n := by
  induction h generalizing n with
  | here => simp [recital, hr n]
  | blanks r =>
      have hn := hr n
      rw [recite_skipBlanks] at hn
      simp [recital, hn]
  | step h hk hreaches ih =>
      cases n with
      | zero => rfl
      | succ n =>
          rw [recite, answer_ok h, passed_ok h, ih hr n]
          rename_i ts
          -- Of the repetitions one more than can be needed is left.
          have hmin : min (n - ts.length) (n + 1) = min (n - ts.length) n := by omega
          simp only [recital, List.map_cons, List.cons_append, List.take_succ_cons,
            List.take_append, List.take_replicate, List.length_map, hmin]

/-- The tokens of a text up to its end or to its fault, and what is found there. The tokens before
a fault are those of the text in front of it. -/
inductive Recites (text : List Char) : List Token → Except LexError Token → Prop where
  | ended {ts : List Token} {t : Token} (h : lexText text = .ok (ts ++ [t])) (hk : t.kind = .eof) :
      Recites text ts (.ok t)
  | fault {ts : List Token} {t : Token} {e : LexError} {before behind : List Char}
      (h : lexText text = .error e) (htext : text = before ++ behind)
      (hbefore : lexText before = .ok (ts ++ [t])) (hscan : Lexeme.scan behind = .error e.fault)
      (hloc : e.loc = t.loc) : Recites text ts (.error e)

/-- Every text has such tokens, and reading passes them. -/
theorem exists_recites (text : List Char) :
    ∃ ts last r, Recites text ts last ∧ Reader.Reaches (.ofText text) ts r ∧
      ∀ n, r.recite n = List.replicate n last := by
  cases h : lexText text with
  | ok ts =>
      obtain ⟨us, k, rfl, hr⟩ := Reader.lexText_iff.mp h
      exact ⟨us, _, _, .ended h rfl, hr, Reader.recite_end k⟩
  | error e =>
      obtain ⟨us, r, hr, hn⟩ := Reader.reaches_of_lexText_error h
      -- The text is cut off where the token at fault starts.
      obtain ⟨read, htext, -, hcut⟩ := hr.past_blanks.cut_off (z := []) (by simp)
      rw [List.append_nil] at hcut
      have hfault := hn
      simp only [Reader.next, Reader.read] at hfault
      split at hfault
      · rename_i fault hscan
        cases hfault
        exact ⟨us, _, r, .fault h htext (Reader.lexText_iff.mpr ⟨us, _, rfl, hcut⟩) hscan rfl, hr,
          Reader.recite_error hn⟩
      · cases hfault

/-! ## What has been read -/

/-- Where a token ends. -/
def Token.behind (t : Token) : Cursor := t.cursor.advance t.lexeme.toList

/-- The tokens among some results. -/
def tokensRead (results : List (Except LexError Token)) : List Token :=
  results.filterMap Except.toOption

/-- Where reading stands that has passed some tokens from `k` on: where the last of them ends. -/
def cursorBehind (k : Cursor) (ts : List Token) : Cursor := (ts.getLast?.map Token.behind).getD k

theorem cursorBehind_cons (k : Cursor) (t : Token) (ts : List Token) :
    cursorBehind k (t :: ts) = cursorBehind t.behind ts := by
  unfold cursorBehind
  rw [List.getLast?_cons]
  cases ts.getLast? <;> rfl

theorem tokensRead_map (ts : List Token) : tokensRead (ts.map Except.ok) = ts := by
  simp [tokensRead, List.filterMap_map, Function.comp_def, Except.toOption]

/-- How often a fault is found does not matter to what has been read. -/
theorem tokensRead_recital (ts : List Token) (last : Except LexError Token) (n : Nat) :
    tokensRead (recital ts last (tokensRead (recital ts last n)).length) =
      tokensRead (recital ts last n) := by
  cases last with
  | ok t =>
      have hall : recital ts (.ok t) n = ((ts ++ List.replicate n t).take n).map Except.ok := by
        rw [recital, List.map_take, List.map_append, List.map_replicate]
      have hlength : (tokensRead (recital ts (.ok t) n)).length = n := by
        rw [hall, tokensRead_map]
        simp
      rw [hlength]
  | error e =>
      have hnone : ∀ m, tokensRead (List.replicate m (.error e)) = [] := by
        intro m
        induction m with
        | zero => rfl
        | succ m ih => exact ih
      have hread : ∀ m, tokensRead (recital ts (.error e) m) = ts.take m := by
        intro m
        have hparts : tokensRead (recital ts (.error e) m) =
            tokensRead ((ts.take m).map Except.ok) ++
              tokensRead (List.replicate (min (m - ts.length) m) (.error e)) := by
          rw [recital, List.take_append, List.take_replicate, List.length_map, ← List.map_take]
          exact List.filterMap_append ..
        rw [hparts, tokensRead_map, hnone, List.append_nil]
      rw [hread, hread, List.length_take]
      simp

namespace Reader

/-- Where a reader stands behind so many calls. -/
theorem cursor_passed {r : Reader} {n : Nat} {k : Cursor}
    (h : k = cursorBehind r.passed.cursor (tokensRead (recite n r.passed))) :
    k = cursorBehind r.cursor (tokensRead (recite (n + 1) r)) := by
  rw [recite]
  cases hn : r.next with
  | error e =>
      rw [passed_error hn] at h ⊢
      rw [answer_error hn]
      exact h
  | ok p =>
      obtain ⟨t, after⟩ := p
      obtain ⟨-, -, hafter⟩ := next_split hn
      rw [passed_ok hn] at h ⊢
      have hread : tokensRead (.ok t :: recite n after) = t :: tokensRead (recite n after) := rfl
      rw [answer_ok hn, hread, cursorBehind_cons, h, hafter]
      rfl

end Reader

/-! ## Sessions -/

namespace Session

/-- The results of those steps that are `step`. -/
def asked (step : Step) (steps : List Step) (s : Session) : List Result :=
  ((steps.zip (s.run steps)).filter (·.1 = step)).map (·.2.1)

/-- The session behind all steps. -/
def after (steps : List Step) (s : Session) : Session :=
  ((s.run steps).getLast?.map (·.2)).getD s

/-- Whether a token has been found. -/
def found : Result → Bool
  | some (.ok _) => true
  | _ => false

variable {s : Session} {r : Reader}

theorem asked_cons (step st : Step) (steps : List Step) (s : Session) :
    asked step (st :: steps) s =
      (if st = step then [(s.step st).1] else []) ++ asked step steps (s.step st).2 := by
  unfold asked
  rw [run, List.zip_cons_cons, List.filter_cons]
  split <;> simp_all

theorem after_cons (st : Step) (steps : List Step) (s : Session) :
    after (st :: steps) s = after steps (s.step st).2 := by
  unfold after
  rw [run, List.getLast?_cons]
  cases ((s.step st).2.run steps).getLast? <;> rfl

theorem countP_found (results : List (Except LexError Token)) :
    (results.map some).countP found = (tokensRead results).length := by
  induction results with
  | nil => rfl
  | cons result results ih =>
      rw [List.map_cons]
      cases result with
      | error e =>
          rw [List.countP_cons_of_neg (by simp [found]), ih]
          rfl
      | ok t =>
          rw [List.countP_cons_of_pos rfl, ih]
          rfl

/-- A probe does not move the session's own cursor. -/
theorem readsLike_probe (h : s.ReadsLike r) (k : Cursor) : (s.probe k).2.ReadsLike r := by
  unfold probe
  split <;> exact ⟨h.standsIn, h.cursor⟩

/-- A reading step finds what the reader finds, and the session reads on like the reader past
it. -/
theorem next_recites (h : s.ReadsLike r) :
    s.next.1 = some r.answer ∧ s.next.2.ReadsLike r.passed := by
  rw [next_of_readsLike h]
  cases hn : r.next with
  | error e => exact ⟨by rw [Reader.answer_error hn], by rw [Reader.passed_error hn]; exact h⟩
  | ok p =>
      rw [Reader.answer_ok hn, Reader.passed_ok hn]
      exact ⟨rfl, h.standsIn.next hn, rfl⟩

/-- **The reading steps of a session find what a reader finds in as many calls**, whatever is asked
between them, and the session stands behind what they have read. -/
theorem asked_next (h : s.ReadsLike r) (steps : List Step) :
    asked .next steps s = (r.recite (steps.count .next)).map some ∧
      (after steps s).cursor =
        cursorBehind r.cursor (tokensRead (r.recite (steps.count .next))) := by
  induction steps generalizing s r with
  | nil => exact ⟨rfl, h.cursor⟩
  | cons st steps ih =>
      rw [asked_cons, after_cons]
      have hprobe : ∀ k, st ≠ .next → s.step st = s.probe k →
          asked .next steps (s.step st).2 =
            (r.recite ((st :: steps).count .next)).map some ∧
          (after steps (s.step st).2).cursor =
            cursorBehind r.cursor (tokensRead (r.recite ((st :: steps).count .next))) := by
        intro k hne hstep
        rw [hstep, List.count_cons_of_ne hne]
        exact ih (readsLike_probe h k)
      cases st with
      | next =>
          obtain ⟨hanswer, hlike⟩ := next_recites h
          obtain ⟨hasked, hafter⟩ := ih hlike
          rw [List.count_cons_self]
          refine ⟨?_, Reader.cursor_passed hafter⟩
          rw [if_pos rfl, show (s.step .next) = s.next from rfl, hanswer, hasked]
          rfl
      | probe k => exact hprobe k (by simp) rfl
      | again => exact hprobe s.cursor (by simp) rfl
      | follow => exact hprobe s.probed (by simp) rfl

/-- The session that reads on where the last probe has ended. -/
def following (s : Session) : Session := { s with cursor := s.probed }

/-- **Steps that follow the last probe find what a reader finds in as many calls.** -/
theorem asked_follow (h : s.following.ReadsLike r) (n : Nat) :
    (s.run (List.replicate n .follow)).map (·.1) = (r.recite n).map some := by
  induction n generalizing s r with
  | zero => rfl
  | succ n ih =>
      obtain ⟨hanswer, hlike⟩ := next_recites h
      have hstep : (s.step .follow).1 = s.following.next.1 ∧
          (s.step .follow).2.text = s.following.next.2.text ∧
          (s.step .follow).2.probed = s.following.next.2.cursor := by
        simp only [step, probe, next, following]
        split <;> exact ⟨rfl, rfl, rfl⟩
      obtain ⟨hfound, htext, hcursor⟩ := hstep
      have hprobed : (s.step .follow).2.following.ReadsLike r.passed :=
        ⟨htext ▸ hlike.standsIn, hcursor.trans hlike.cursor⟩
      rw [List.replicate_succ, run, List.map_cons, ih hprobed, hfound, hanswer]
      rfl

end Session

/-- **Every session recites its text.** Whatever is asked in between, the reading steps find the
tokens of the text in their order, and then its end or its fault over and over; the cursor stands
behind the token that was read last, so it depends on the number of tokens that have been read
alone; and steps that follow the last probe, from the start of the text on, find the same. -/
theorem sessions_recite (text : List Char) :
    ∃ ts last, Recites text ts last ∧
      ∀ steps : List Session.Step, let s := Session.ofText text
        s.asked .next steps = (recital ts last (steps.count .next)).map some ∧
          (s.after steps).cursor = cursorBehind .start
            (tokensRead (recital ts last ((s.asked .next steps).countP Session.found))) ∧
          ∀ n, (s.run (List.replicate n .follow)).map (·.1) = (recital ts last n).map some := by
  obtain ⟨ts, last, r, hrecites, hreaches, hlast⟩ := exists_recites text
  have hrecital := fun n => Reader.recite_of_reaches hreaches hlast n
  refine ⟨ts, last, hrecites, fun steps => ?_⟩
  obtain ⟨hasked, hafter⟩ := Session.asked_next (Session.readsLike_ofText text) steps
  rw [hrecital] at hasked hafter
  refine ⟨hasked, ?_, fun n => ?_⟩
  · rw [hafter, hasked, Session.countP_found, tokensRead_recital]
    rfl
  · have hstart : (Session.ofText text).following.ReadsLike (.ofText text) :=
      Session.readsLike_ofText text
    rw [Session.asked_follow hstart, hrecital]

/-- A probe behind the fault changes nothing, and the fault is found again. -/
example : (Session.ofText "a _b c".toList).asked .next [.next, .next, .probe ⟨4, ⟨1, 5⟩⟩, .next] =
    [some (.ok ⟨.ident, "a", ⟨1, 1⟩, 0⟩), some (.error ⟨.invalidIdentifier "_b", ⟨1, 3⟩⟩),
      some (.error ⟨.invalidIdentifier "_b", ⟨1, 3⟩⟩)] := by
  rfl

end RSource
