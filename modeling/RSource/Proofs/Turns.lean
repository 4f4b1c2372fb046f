import RSource.Grammar.Expression

/-!
# Loops of the grammar

Each list of the grammar, and the operators behind an operand, are read by a loop whose turns are
all alike. Its bound only counts the turns.

* `Turn`, `Parse.loop` — how a turn ends, and turns up to a bound.
* `Parse.Repeats` — what comes of as many turns as it takes, on a feed.
* `Parse.repeats_loop` — **where each turn leaves fewer tokens, turns come to an end**, and a bound
  above the number of tokens changes nothing.
* `Grammar.statementsTurn`, `Grammar.operationsTurn`, `Grammar.groupsTurn`, `Grammar.slotsTurn`,
  `Grammar.formalsTurn` — a turn of each loop, with what has been read so far.
* `Grammar.statements_eq_loop` and the like — the loops are made of these turns.
-/

namespace RSource

/-- How a turn of a loop ends. -/
inductive Turn (σ ρ : Type) where
  | again (x : σ)
  | exit (r : ρ)

namespace Parse

variable {σ ρ : Type}

/-- Turns from `x` on, at most so many. -/
def loop (turn : σ → Parse (Turn σ ρ)) : Nat → σ → Parse ρ
  | 0, _ => outOfBound
  | n + 1, x => (turn x).bind fun
      | .again y => loop turn n y
      | .exit r => done r

/-- What comes of turns from `x` on, as many as it takes. -/
inductive Repeats (turn : σ → Parse (Turn σ ρ)) : σ → Feed → Except Error (ρ × Feed) → Prop where
  | fail {x : σ} {s : Feed} {e : Error} (h : (turn x).run s = .error e) :
      Repeats turn x s (.error e)
  | exit {x : σ} {s s' : Feed} {r : ρ} (h : (turn x).run s = .ok (.exit r, s')) :
      Repeats turn x s (.ok (r, s'))
  | again {x y : σ} {s s' : Feed} {o : Except Error (ρ × Feed)}
      (h : (turn x).run s = .ok (.again y, s')) (ho : Repeats turn y s' o) : Repeats turn x s o

/-- Turns come to one end at most. -/
theorem Repeats.unique {turn : σ → Parse (Turn σ ρ)} {x : σ} {s : Feed}
    {o o' : Except Error (ρ × Feed)} (h : Repeats turn x s o) (h' : Repeats turn x s o') :
    o = o' := by
  induction h with
  | fail h => cases h' <;> simp_all
  | exit h => cases h' <;> simp_all
  | again h _ ih =>
    cases h' with
    | fail h' => simp_all
    | exit h' => simp_all
    | again h' ho' =>
      cases h.symm.trans h'
      exact ih ho'

/-- **Where each turn leaves fewer tokens, turns come to an end**, and a bound above the number of
tokens changes nothing. -/
theorem repeats_loop {turn : σ → Parse (Turn σ ρ)} {left : Feed → Nat}
    (hturn : ∀ {x y s s'}, (turn x).run s = .ok (.again y, s') → left s' < left s) {n : Nat}
    {x : σ} {s : Feed} (hn : left s < n) : Repeats turn x s ((loop turn n x).run s) := by
  induction n generalizing x s with
  | zero => exact absurd hn (Nat.not_lt_zero _)
  | succ n ih =>
    rw [loop, run_bind]
    cases h : (turn x).run s with
    | error e => exact .fail h
    | ok r =>
      obtain ⟨_ | r, s'⟩ := r
      · have hlt := hturn h
        exact .again h (ih (by omega))
      · exact .exit h

end Parse

/-! ## The loops -/

namespace Grammar

open Parse

variable {expr : ExprParse} {close : TokenKind} {bound n minPower : Nat} {loc : Location}

/-- A statement, or what separates statements. -/
def statementsTurn (expr : ExprParse) (close : TokenKind) (es : List Expression) :
    Parse (Turn (List Expression) (List Expression)) := do
  let t ← look
  if separates t.kind then
    drop
    return .again es
  else if t.kind = close then return .exit es
  else if t.kind = .eof then .reject [.token close]
  else
    let first ← expr 0
    let next ← look
    if separates next.kind || next.kind == .eof || next.kind == close
        || startsExpression next.kind then
      return .again (es ++ [first])
    else .reject (afterStatement close)

theorem append_statements (es : List Expression) :
    ((statements expr close n).bind fun rest => done (es ++ rest)) =
      loop (statementsTurn expr close) n es := by
  induction n generalizing es with
  | zero => rfl
  | succ n ih =>
    rw [statements, loop, statementsTurn]
    simp only [bind_eq_bind, pure_eq_done, bind_bind]
    congr 1
    funext t
    split
    · simp only [bind_bind, Parse.bind, ih]
    · split
      · simp only [Parse.bind, List.append_nil]
      · split
        · rfl
        · simp only [bind_bind]
          congr 1
          funext first
          congr 1
          funext next
          split
          · simp only [bind_bind, Parse.bind, ← ih, List.append_assoc, List.singleton_append]
          · rfl

theorem statements_eq_loop : statements expr close n = loop (statementsTurn expr close) n [] :=
  (bind_done _).symm.trans (append_statements [])

/-- The calls and subscripts behind a `$` or `@`, or an operator with its right operand. -/
def operationsTurn (expr : ExprParse) (bound minPower : Nat) (loc : Location) (lhs : Expression) :
    Parse (Turn Expression Expression) := do
  let op ← look
  if (Brackets.ofKind? op.kind).isSome then
    let gs ← groups expr bound bound
    return .again (.term loc (.mk (.nested lhs) gs))
  else
    match Power.ofKind? op.kind with
    | none => return .exit lhs
    | some power =>
        if power.left < minPower then return .exit lhs
        else
          drop
          dropLines
          let rhs ← rightOperand expr bound op.kind power
          match joined? loc lhs op rhs with
          | none => .reject [.statementEnd]
          | some e => return .again e

theorem operations_eq_loop (lhs : Expression) :
    operations expr bound minPower loc n lhs =
      loop (operationsTurn expr bound minPower loc) n lhs := by
  induction n generalizing lhs with
  | zero => rfl
  | succ n ih =>
    rw [operations, loop, operationsTurn]
    simp only [bind_eq_bind, pure_eq_done, bind_bind]
    congr 1
    funext op
    split
    · simp only [bind_bind, Parse.bind, ih]
    · cases Power.ofKind? op.kind with
      | none => rfl
      | some power =>
        simp only
        split
        · rfl
        · simp only [bind_bind]
          congr 1
          funext _
          congr 1
          funext _
          congr 1
          funext rhs
          cases joined? loc lhs op rhs with
          | none => rfl
          | some e => exact ih e

/-- A call or subscript. -/
def groupsTurn (expr : ExprParse) (bound : Nat) (gs : List Group) :
    Parse (Turn (List Group) (List Group)) := do
  match Brackets.ofKind? (← look).kind with
  | none => return .exit gs
  | some kind => return .again (gs ++ [← group expr bound kind])

theorem append_groups (gs : List Group) :
    ((groups expr bound n).bind fun rest => done (gs ++ rest)) =
      loop (groupsTurn expr bound) n gs := by
  induction n generalizing gs with
  | zero => rfl
  | succ n ih =>
    rw [groups, loop, groupsTurn]
    simp only [bind_eq_bind, pure_eq_done, bind_bind]
    congr 1
    funext t
    cases Brackets.ofKind? t.kind with
    | none => simp only [Parse.bind, List.append_nil]
    | some kind =>
      simp only [bind_bind, Parse.bind, ← ih, List.append_assoc, List.singleton_append]

theorem groups_eq_loop : groups expr bound n = loop (groupsTurn expr bound) n [] :=
  (bind_done _).symm.trans (append_groups [])

/-- A slot with the comma behind it. -/
def slotsTurn (expr : ExprParse) (close : TokenKind) (slots : List Argument) :
    Parse (Turn (List Argument) (List Argument)) := do
  let first ← slot expr close
  let next ← look
  if next.kind = .comma then
    drop
    if (← look).kind = close then return .exit (slots ++ [first, .empty])
    else return .again (slots ++ [first])
  else if next.kind = close then return .exit (slots ++ [first])
  else .reject [.token .comma, .token close]

theorem append_slots (as : List Argument) :
    ((slots expr close n).bind fun rest => done (as ++ rest)) =
      loop (slotsTurn expr close) n as := by
  induction n generalizing as with
  | zero => rfl
  | succ n ih =>
    rw [slots, loop, slotsTurn]
    simp only [bind_eq_bind, pure_eq_done, bind_bind]
    congr 1
    funext first
    congr 1
    funext next
    split
    · simp only [bind_bind]
      congr 1
      funext _
      congr 1
      funext u
      split
      · rfl
      · simp only [bind_bind, Parse.bind, ← ih, List.append_assoc, List.singleton_append]
    · split <;> rfl

theorem slots_eq_loop : slots expr close n = loop (slotsTurn expr close) n [] :=
  (bind_done _).symm.trans (append_slots [])

/-- A parameter with the comma behind it. -/
def formalsTurn (expr : ExprParse) (fs : List Formal) :
    Parse (Turn (List Formal) (List Formal)) := do
  let first ← formal expr
  let next ← look
  if next.kind = .comma then
    drop
    return .again (fs ++ [first])
  else if next.kind = .rparen then return .exit (fs ++ [first])
  else .reject [.token .comma, .token .rparen]

theorem append_someFormals (fs : List Formal) :
    ((someFormals expr n).bind fun rest => done (fs ++ rest)) = loop (formalsTurn expr) n fs := by
  induction n generalizing fs with
  | zero => rfl
  | succ n ih =>
    rw [someFormals, loop, formalsTurn]
    simp only [bind_eq_bind, pure_eq_done, bind_bind]
    congr 1
    funext first
    congr 1
    funext next
    split
    · simp only [bind_bind, Parse.bind, ← ih, List.append_assoc, List.singleton_append]
    · split <;> rfl

theorem someFormals_eq_loop : someFormals expr n = loop (formalsTurn expr) n [] :=
  (bind_done _).symm.trans (append_someFormals [])

end Grammar

end RSource
