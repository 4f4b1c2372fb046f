import RSource.Feed

/-!
# Parses as dialogues with a token feed

A parse asks for tokens, takes them, opens and closes brackets, and ends with a result or a
refusal. All it can learn or change passes through these requests, so what holds of every single
request holds of every parse.

* `Parse` — the requests, with what is done with each answer; a monad.
* `Parse.run` — carries a parse out on a feed.
* `Parse.bind_bind`, `Parse.bind_done` — the laws of what a parse goes on with.
* `Parse.run_bind` — a sequence runs one part after the other, and the first refusal stands.
* `Parse.look`, `Parse.accept`, `Parse.demand` and the like — the parses of a single request.
-/

namespace RSource

/-- A parse with a result in `α`. -/
inductive Parse (α : Type) where
  | done (a : α)
  /-- Refuse the next visible token, naming what would be accepted instead. -/
  | reject (expected : List Continuation)
  /-- Refuse to nest any deeper at the next visible token. -/
  | tooDeep
  /-- Look at the `n`th visible token ahead, from zero. -/
  | ahead (n : Nat) (k : Token → Parse α)
  /-- Take the next visible token. -/
  | take (k : Token → Parse α)
  /-- Take the line feeds that stand here. -/
  | skipLines (k : Unit → Parse α)
  /-- Look at the kind of the next token that is no line feed. -/
  | beyondLines (k : TokenKind → Parse α)
  /-- Go inside brackets. -/
  | enter (layout : Layout) (k : Unit → Parse α)
  /-- Go outside the innermost brackets. -/
  | leave (k : Unit → Parse α)
  /-- Ask whether any brackets are open. -/
  | inBrackets (k : Bool → Parse α)

namespace Parse

variable {α β γ : Type}

/-- Goes on with the result of a parse. -/
def bind : Parse α → (α → Parse β) → Parse β
  | done a, f => f a
  | reject expected, _ => .reject expected
  | tooDeep, _ => .tooDeep
  | ahead n k, f => .ahead n (fun t => (k t).bind f)
  | take k, f => .take (fun t => (k t).bind f)
  | skipLines k, f => .skipLines (fun u => (k u).bind f)
  | beyondLines k, f => .beyondLines (fun kind => (k kind).bind f)
  | enter layout k, f => .enter layout (fun u => (k u).bind f)
  | leave k, f => .leave (fun u => (k u).bind f)
  | inBrackets k, f => .inBrackets (fun b => (k b).bind f)

instance : Monad Parse where
  pure := done
  bind := bind

@[simp] theorem pure_eq_done (a : α) : (pure a : Parse α) = done a := rfl

@[simp] theorem bind_eq_bind (p : Parse α) (f : α → Parse β) : p >>= f = p.bind f := rfl

theorem done_bind (a : α) (f : α → Parse β) : (done a).bind f = f a := rfl

theorem reject_bind (x : List Continuation) (f : α → Parse β) :
    (reject x).bind f = .reject x := rfl

theorem ite_bind (c : Prop) [Decidable c] (p q : Parse α) (f : α → Parse β) :
    (if c then p else q).bind f = if c then p.bind f else q.bind f := by
  split <;> rfl

/-- Binding three parses in either order is the same. -/
theorem bind_bind (p : Parse α) (f : α → Parse β) (g : β → Parse γ) :
    (p.bind f).bind g = p.bind fun a => (f a).bind g := by
  induction p with
  | done a => rfl
  | reject expected => rfl
  | tooDeep => rfl
  | ahead n k ih => exact congrArg (ahead n) (funext ih)
  | take k ih => exact congrArg take (funext ih)
  | skipLines k ih => exact congrArg skipLines (funext ih)
  | beyondLines k ih => exact congrArg beyondLines (funext ih)
  | enter layout k ih => exact congrArg (enter layout) (funext ih)
  | leave k ih => exact congrArg leave (funext ih)
  | inBrackets k ih => exact congrArg inBrackets (funext ih)

theorem bind_done (p : Parse α) : p.bind done = p := by
  induction p with
  | done a => rfl
  | reject expected => rfl
  | tooDeep => rfl
  | ahead n k ih => exact congrArg (ahead n) (funext ih)
  | take k ih => exact congrArg take (funext ih)
  | skipLines k ih => exact congrArg skipLines (funext ih)
  | beyondLines k ih => exact congrArg beyondLines (funext ih)
  | enter layout k ih => exact congrArg (enter layout) (funext ih)
  | leave k ih => exact congrArg leave (funext ih)
  | inBrackets k ih => exact congrArg inBrackets (funext ih)

/-- Carries a parse out on a feed. -/
def run : Parse α → Feed → Except Error (α × Feed)
  | done a, s => .ok (a, s)
  | reject expected, s =>
      match s.front with
      | .error e => .error (.lexical e)
      | .ok t => .error (.unexpected (.ofToken t expected))
  | tooDeep, s =>
      match s.front with
      | .error e => .error (.lexical e)
      | .ok t => .error (.tooDeep t.loc)
  | ahead n k, s =>
      match s.ahead n with
      | .error e => .error (.lexical e)
      | .ok t => (k t).run s
  | take k, s =>
      match s.take with
      | .error e => .error (.lexical e)
      | .ok (t, s') => (k t).run s'
  | skipLines k, s =>
      match s.skipLines with
      | .error e => .error (.lexical e)
      | .ok s' => (k ()).run s'
  | beyondLines k, s =>
      match s.beyondLines with
      | .error e => .error (.lexical e)
      | .ok kind => (k kind).run s
  | enter layout k, s => (k ()).run (s.enter layout)
  | leave k, s => (k ()).run s.leave
  | inBrackets k, s => (k s.inBrackets).run s

@[simp] theorem run_done (a : α) (s : Feed) : (done a).run s = .ok (a, s) := rfl

/-- A sequence runs one part after the other, and the first refusal stands. -/
theorem run_bind (p : Parse α) (f : α → Parse β) (s : Feed) :
    (p.bind f).run s =
      match p.run s with
      | .error e => .error e
      | .ok (a, s') => (f a).run s' := by
  induction p generalizing s with
  | done a => rfl
  | reject expected => simp only [bind, run]; cases s.front <;> rfl
  | tooDeep => simp only [bind, run]; cases s.front <;> rfl
  | ahead n k ih =>
      simp only [bind, run]
      cases s.ahead n with
      | error e => rfl
      | ok t => exact ih t s
  | take k ih =>
      simp only [bind, run]
      cases s.take with
      | error e => rfl
      | ok r => exact ih r.1 r.2
  | skipLines k ih =>
      simp only [bind, run]
      cases s.skipLines with
      | error e => rfl
      | ok s' => exact ih () s'
  | beyondLines k ih =>
      simp only [bind, run]
      cases s.beyondLines with
      | error e => rfl
      | ok kind => exact ih kind s
  | enter layout k ih => exact ih () _
  | leave k ih => exact ih () _
  | inBrackets k ih => exact ih _ s

/-- The next visible token. -/
def look : Parse Token := .ahead 0 done

/-- The visible token after the next. -/
def lookSecond : Parse Token := .ahead 1 done

/-- Takes the next visible token. -/
def accept : Parse Token := .take done

/-- Takes the next visible token, which has been looked at. -/
def drop : Parse Unit := .take (fun _ => done ())

/-- Takes the line feeds that stand here. -/
def dropLines : Parse Unit := .skipLines done

/-- The kind of the next token that is no line feed. -/
def kindBeyondLines : Parse TokenKind := .beyondLines done

/-- Goes inside brackets. -/
def opened (layout : Layout) : Parse Unit := .enter layout done

/-- Goes outside the innermost brackets. -/
def closed : Parse Unit := .leave done

/-- Whether any brackets are open. -/
def bracketed : Parse Bool := .inBrackets done

/-- Refuses a list with more items than its bound. No parse of a source comes here, because the
bound counts the characters of the source and every item takes one. -/
def outOfBound : Parse α := .reject []

/-- Takes a token of one kind, the only one that is accepted. -/
def demand (kind : TokenKind) : Parse Token := do
  let t ← look
  if t.kind = kind then accept else .reject [.token kind]

end Parse

end RSource
