import RSource.Proofs.Turns

/-!
# Properties that compose

A parse of the grammar is put together from requests and from calls of the parse of an expression,
which it is given, by sequences, choices and loops. A property of such parses that sequences and
loops have as soon as their parts do is one of all parses of the grammar.

* `Parse.Explains` — whatever a parse refuses, it names what would be accepted instead.
* `Grammar.LoopTurn` — the turns of which the loops of the grammar are made.
* `Grammar.Composes` — a property that requests and calls have, and with their parts sequences and
  loops.
* `Grammar.Composes.ite` — so do choices that depend on what has been read.
* `Grammar.Composes.argument`, `Grammar.Composes.statements`, `Grammar.Composes.level` and the
  like — **so do all parses of the grammar**, down to a whole expression.
-/

namespace RSource

/-! ## Requests -/

namespace Parse

variable {α β : Type}

/-- Whatever the parse refuses, it names what would be accepted instead. -/
def Explains : Parse α → Prop
  | done _ | tooDeep => True
  | reject expected => expected ≠ []
  | ahead _ k | take k => ∀ t, (k t).Explains
  | skipLines k | enter _ k | leave k => (k ()).Explains
  | beyondLines k => ∀ kind, (k kind).Explains
  | inBrackets k => ∀ b, (k b).Explains

theorem Explains.bind {p : Parse α} {f : α → Parse β} (h : p.Explains)
    (hf : ∀ a, (f a).Explains) : (p.bind f).Explains := by
  induction p with
  | done a => exact hf a
  | reject expected => exact h
  | tooDeep => trivial
  | ahead n k ih => exact fun t => ih t (h t)
  | take k ih => exact fun t => ih t (h t)
  | skipLines k ih => exact ih () h
  | beyondLines k ih => exact fun kind => ih kind (h kind)
  | enter layout k ih => exact ih () h
  | leave k ih => exact ih () h
  | inBrackets k ih => exact fun b => ih b (h b)

theorem explains_look : look.Explains := fun _ => trivial

theorem explains_lookSecond : lookSecond.Explains := fun _ => trivial

theorem explains_drop : drop.Explains := fun _ => trivial

theorem explains_dropLines : dropLines.Explains := trivial

theorem explains_opened (layout : Layout) : (opened layout).Explains := trivial

theorem explains_closed : closed.Explains := trivial

theorem explains_demand (kind : TokenKind) : (demand kind).Explains := by
  intro t
  change (if t.kind = kind then accept else .reject [.token kind]).Explains
  split
  · exact fun _ => trivial
  · exact List.cons_ne_nil _ _

end Parse

namespace Grammar

open Parse

theorem explains_name : name.Explains := by
  refine explains_look.bind fun t => ?_
  split
  · exact explains_drop.bind fun _ => trivial
  · exact List.cons_ne_nil _ _

theorem explains_elseFollows : elseFollows.Explains := by
  intro inside
  cases inside with
  | true => exact fun _ => trivial
  | false => exact fun _ => trivial

theorem explains_closing (kind : Brackets) : (closing kind).Explains := by
  refine (explains_demand kind.closing).bind fun close => ?_
  split
  · refine explains_look.bind fun t => ?_
    split
    · exact explains_drop
    · exact List.cons_ne_nil _ _
  · trivial

theorem afterStatement_ne_nil (close : TokenKind) : afterStatement close ≠ [] := by
  unfold afterStatement
  split <;> exact List.cons_ne_nil _ _

/-! ## Turns, sequences and calls -/

/-- The turns of which the loops of the grammar are made. -/
inductive LoopTurn (bound : Nat) :
    {σ ρ : Type} → (σ → ExprParse → Parse (Turn σ ρ)) → Prop where
  | statements (close : TokenKind) : LoopTurn bound fun es expr => statementsTurn expr close es
  | operations (m : Nat) (loc : Location) :
      LoopTurn bound fun lhs expr => operationsTurn expr bound m loc lhs
  | groups : LoopTurn bound fun gs expr => groupsTurn expr bound gs
  | slots (close : TokenKind) : LoopTurn bound fun as expr => slotsTurn expr close as
  | formals : LoopTurn bound fun fs expr => formalsTurn expr fs

/-- A property of parses that call for expressions: requests that explain what they refuse have it,
and so do calls; sequences have it with their parts, and loops with their turns. -/
structure Composes (bound : Nat) (Q : ∀ {α : Type}, (ExprParse → Parse α) → Prop) : Prop where
  request : ∀ {α : Type} {p : Parse α}, p.Explains → Q fun _ => p
  call : ∀ m, Q fun expr => expr m
  bind : ∀ {α β : Type} {p : ExprParse → Parse β} {f : β → ExprParse → Parse α},
    Q p → (∀ b, Q (f b)) → Q fun expr => (p expr).bind fun b => f b expr
  loop : ∀ {σ ρ : Type} {turn : σ → ExprParse → Parse (Turn σ ρ)}, LoopTurn bound turn →
    (∀ x, Q (turn x)) → ∀ x, Q fun expr => Parse.loop (fun y => turn y expr) bound x

namespace Composes

section Sequences

variable {α β : Type} {bound : Nat} {Q : ∀ {α : Type}, (ExprParse → Parse α) → Prop}
  (h : Composes bound Q)

include h

theorem done (a : α) : Q fun _ => .done a := h.request trivial

theorem reject {expected : List Continuation} (hne : expected ≠ []) :
    Q fun _ => (.reject expected : Parse α) := h.request hne

/-- A request first. -/
theorem after {p : Parse β} {f : β → ExprParse → Parse α} (hp : p.Explains)
    (hf : ∀ b, Q (f b)) : Q fun expr => p.bind fun b => f b expr :=
  h.bind (h.request hp) hf

/-- A parse whose result is made into another. -/
theorem map {p : ExprParse → Parse β} {f : β → α} (hp : Q p) :
    Q fun expr => (p expr).bind fun b => .done (f b) :=
  h.bind hp fun b => h.done (f b)

omit h in
/-- No expression takes part in a choice: it depends on what has been read. -/
theorem ite (_ : Composes bound Q) {c : Prop} [Decidable c] {p q : ExprParse → Parse α}
    (hp : Q p) (hq : Q q) : Q fun expr => if c then p expr else q expr := by
  by_cases hc : c
  · simpa only [if_pos hc] using hp
  · simpa only [if_neg hc] using hq

end Sequences

section Parts

variable {bound : Nat} {Q : ∀ {α : Type}, (ExprParse → Parse α) → Prop} (h : Composes bound Q)

include h

/-! ## Lists in brackets -/

theorem argument (close : TokenKind) : Q fun expr => Grammar.argument expr close := by
  refine h.after explains_look fun t => ?_
  cases ArgName.ofToken? t with
  | none => exact h.map (h.call 0)
  | some n =>
    refine h.after explains_lookSecond fun u => ?_
    refine h.ite ?_ (h.map (h.call 0))
    -- Behind the equals sign the value may be missing.
    refine h.after explains_drop fun _ => ?_
    refine h.after explains_drop fun _ => ?_
    refine h.after explains_look fun v => ?_
    exact h.ite (h.done _) (h.map (h.call 0))

theorem slot (close : TokenKind) : Q fun expr => Grammar.slot expr close := by
  refine h.after explains_look fun t => ?_
  exact h.ite (h.done _) (h.argument close)

theorem slots (close : TokenKind) : Q fun expr => Grammar.slots expr close bound := by
  simp only [slots_eq_loop]
  refine h.loop (.slots close) (fun as => ?_) []
  refine h.bind (h.slot close) fun first => ?_
  refine h.after explains_look fun next => ?_
  refine h.ite ?_ (h.ite (h.done _) (h.reject (List.cons_ne_nil _ _)))
  refine h.after explains_drop fun _ => ?_
  refine h.after explains_look fun u => ?_
  exact h.ite (h.done _) (h.done _)

theorem arguments (close : TokenKind) : Q fun expr => Grammar.arguments expr close bound := by
  refine h.after explains_look fun t => ?_
  exact h.ite (h.done _) (h.slots close)

theorem group (kind : Brackets) : Q fun expr => Grammar.group expr bound kind := by
  refine h.after explains_drop fun _ => ?_
  refine h.after (explains_opened .free) fun _ => ?_
  refine h.after explains_look fun t => ?_
  refine h.bind (h.arguments kind.closing) fun as => ?_
  refine h.after (explains_closing kind) fun _ => ?_
  exact h.after explains_closed fun _ => h.done _

theorem groups : Q fun expr => Grammar.groups expr bound bound := by
  simp only [groups_eq_loop]
  refine h.loop .groups (fun gs => ?_) []
  refine h.after explains_look fun t => ?_
  cases Brackets.ofKind? t.kind with
  | none => exact h.done _
  | some kind => exact h.map (h.group kind)

theorem formal : Q fun expr => Grammar.formal expr := by
  refine h.after explains_name fun i => ?_
  refine h.after explains_look fun t => ?_
  refine h.ite ?_ (h.done _)
  exact h.after explains_drop fun _ => h.map (h.call 0)

theorem someFormals : Q fun expr => Grammar.someFormals expr bound := by
  simp only [someFormals_eq_loop]
  refine h.loop .formals (fun fs => ?_) []
  refine h.bind h.formal fun first => ?_
  refine h.after explains_look fun next => ?_
  refine h.ite ?_ (h.ite (h.done _) (h.reject (List.cons_ne_nil _ _)))
  exact h.after explains_drop fun _ => h.done _

theorem formals : Q fun expr => Grammar.formals expr bound := by
  refine h.after explains_look fun t => ?_
  exact h.ite (h.done _) h.someFormals

/-! ## Statements and operands -/

theorem statements (close : TokenKind) : Q fun expr => Grammar.statements expr close bound := by
  simp only [statements_eq_loop]
  refine h.loop (.statements close) (fun es => ?_) []
  refine h.after explains_look fun t => ?_
  refine h.ite (h.after explains_drop fun _ => h.done _) ?_
  refine h.ite (h.done _) ?_
  refine h.ite (h.reject (List.cons_ne_nil _ _)) ?_
  refine h.bind (h.call 0) fun first => ?_
  refine h.after explains_look fun next => ?_
  exact h.ite (h.done _) (h.reject (afterStatement_ne_nil close))

theorem parenthesized : Q fun expr => Grammar.parenthesized expr := by
  refine h.after (explains_demand .lparen) fun _ => ?_
  refine h.after (explains_opened .free) fun _ => ?_
  refine h.bind (h.call 0) fun e => ?_
  refine h.after (explains_demand .rparen) fun _ => ?_
  exact h.after explains_closed fun _ => h.done e

theorem body : Q fun expr => Grammar.body expr := h.after explains_dropLines fun _ => h.call 0

theorem block : Q fun expr => Grammar.block expr bound := by
  refine h.after (explains_demand .lbrace) fun brace => ?_
  refine h.after (explains_opened .lined) fun _ => ?_
  refine h.bind (h.statements .rbrace) fun es => ?_
  refine h.after (explains_demand .rbrace) fun close => ?_
  exact h.after explains_closed fun _ => h.done _

theorem function : Q fun expr => Grammar.function expr bound := by
  refine h.after (explains_demand .functionWord) fun word => ?_
  refine h.after (explains_demand .lparen) fun _ => ?_
  refine h.after (explains_opened .free) fun _ => ?_
  refine h.bind h.formals fun params => ?_
  refine h.after (explains_demand .rparen) fun _ => ?_
  exact h.after explains_closed fun _ => h.map h.body

theorem ifForm : Q fun expr => Grammar.ifForm expr := by
  refine h.after (explains_demand .ifWord) fun word => ?_
  refine h.bind h.parenthesized fun cond => ?_
  refine h.bind h.body fun thenBranch => ?_
  refine h.after explains_elseFollows fun follows => ?_
  refine h.ite ?_ (h.done _)
  refine h.after explains_dropLines fun _ => ?_
  exact h.after (explains_demand .elseWord) fun _ => h.map h.body

theorem forLoop : Q fun expr => Grammar.forLoop expr := by
  refine h.after (explains_demand .forWord) fun word => ?_
  refine h.after (explains_demand .lparen) fun _ => ?_
  refine h.after (explains_opened .free) fun _ => ?_
  refine h.after explains_name fun var => ?_
  refine h.after (explains_demand .inWord) fun _ => ?_
  refine h.bind (h.call 0) fun seq => ?_
  refine h.after (explains_demand .rparen) fun _ => ?_
  exact h.after explains_closed fun _ => h.map h.body

theorem whileLoop : Q fun expr => Grammar.whileLoop expr := by
  refine h.after (explains_demand .whileWord) fun word => ?_
  refine h.bind h.parenthesized fun cond => ?_
  exact h.map h.body

theorem repeatLoop : Q fun expr => Grammar.repeatLoop expr := by
  refine h.after (explains_demand .repeatWord) fun word => ?_
  exact h.map h.body

theorem operand : Q fun expr => Grammar.operand expr bound := by
  refine h.after explains_look fun t => ?_
  cases Constant.ofToken? t with
  | some c => exact h.after explains_drop fun _ => h.done _
  | none =>
    cases t.kind
    case lparen => exact h.map h.parenthesized
    case lbrace => exact h.block
    case functionWord => exact h.function
    case ifWord => exact h.ifForm
    case forWord => exact h.forLoop
    case whileWord => exact h.whileLoop
    case repeatWord => exact h.repeatLoop
    case ident | quotedIdent | nextWord | breakWord =>
      exact h.after explains_drop fun _ => h.done _
    all_goals exact h.reject (List.cons_ne_nil _ _)

theorem term : Q fun expr => Grammar.term expr bound := by
  refine h.bind h.operand fun o => ?_
  exact h.map h.groups

/-! ## Operators -/

theorem leading (start : Token) : Q fun expr => Grammar.leading expr bound start := by
  unfold Grammar.leading
  cases UnaryOp.ofKind? start.kind with
  | some op =>
    refine h.after explains_drop fun _ => ?_
    refine h.after explains_dropLines fun _ => ?_
    exact h.map (h.call op.power)
  | none =>
    refine h.ite ?_ (h.map h.term)
    refine h.after explains_drop fun _ => ?_
    refine h.after explains_dropLines fun _ => ?_
    exact h.map (h.call Power.helpTarget)

theorem rightOperand (op : TokenKind) (power : Power) :
    Q fun expr => Grammar.rightOperand expr bound op power := by
  refine h.ite ?_ (h.call power.right)
  refine h.after explains_look fun t => ?_
  exact h.map h.operand

theorem operations (m : Nat) (loc : Location) (lhs : Expression) :
    Q fun expr => Grammar.operations expr bound m loc bound lhs := by
  simp only [operations_eq_loop]
  refine h.loop (.operations m loc) (fun lhs => ?_) lhs
  refine h.after explains_look fun op => ?_
  refine h.ite (h.map h.groups) ?_
  cases Power.ofKind? op.kind with
  | none => exact h.done _
  | some power =>
    refine h.ite (h.done _) ?_
    refine h.after explains_drop fun _ => ?_
    refine h.after explains_dropLines fun _ => ?_
    refine h.bind (h.rightOperand op.kind power) fun rhs => ?_
    cases joined? loc lhs op rhs with
    | none => exact h.reject (List.cons_ne_nil _ _)
    | some e => exact h.done _

/-- **A whole expression has what composes.** -/
theorem level (m : Nat) : Q fun expr => Grammar.level expr bound m := by
  refine h.after explains_look fun start => ?_
  refine h.bind (h.leading start) fun lhs => ?_
  exact h.operations m start.loc lhs

end Parts

end Composes

end Grammar

end RSource
