import RSource.Program
import RSource.Proofs.Tape

/-!
# Derivations

What each parse of the grammar reads, as relations between the tape before, the tree and the tape
behind: one rule for each way through the parse, with all that was looked at on that way. Each
relation takes the relation of an expression as a parameter, as the parses take its parse.

* `ReadsArgument`, `ReadsSlots`, `ReadsGroup`, `ReadsFormals` and the like — lists in brackets.
* `ReadsStatements`, `ReadsOperand`, `ReadsTerm` — statements and operands.
* `ReadsLeading`, `ReadsRight`, `ReadsOperations`, `ReadsLevel` — operators with their operands.
* `ReadsExpression` — an expression with a number of levels of nesting.
-/

namespace RSource.Grammar

open Parse

/-- What the parse of an expression reads: the least left power of its operators, the tape before,
the expression and the tape behind. -/
abbrev ExprReads := Nat → Tape → Expression → Tape → Prop

/-! ## Lists in brackets -/

/-- A name where only a name may stand. -/
inductive ReadsName : Tape → Identifier → Tape → Prop where
  | mk {s : Tape} {t : Token} (ht : s.front = .ok t)
      (hk : t.kind = .ident ∨ t.kind = .quotedIdent) : ReadsName s (.ofToken t) s.past

section Bracketed

variable (E : ExprReads)

/-- An argument: its value, its name alone, or both. -/
inductive ReadsArgument (close : TokenKind) : Tape → Argument → Tape → Prop where
  | value {s s' : Tape} {t : Token} {e : Expression} (ht : s.front = .ok t)
      (hn : ArgName.ofToken? t = none ∨ ∃ u, s.past.front = .ok u ∧ u.kind ≠ .eqAssign)
      (he : E 0 s e s') : ReadsArgument close s (.value e) s'
  | name {s : Tape} {t u v : Token} {n : ArgName} (ht : s.front = .ok t)
      (hn : ArgName.ofToken? t = some n) (hu : s.past.front = .ok u) (hk : u.kind = .eqAssign)
      (hv : s.past.past.front = .ok v) (hend : v.kind = .comma ∨ v.kind = close) :
      ReadsArgument close s (.name n) s.past.past
  | named {s s' : Tape} {t u v : Token} {n : ArgName} {e : Expression} (ht : s.front = .ok t)
      (hn : ArgName.ofToken? t = some n) (hu : s.past.front = .ok u) (hk : u.kind = .eqAssign)
      (hv : s.past.past.front = .ok v) (hend : ¬ (v.kind = .comma ∨ v.kind = close))
      (he : E 0 s.past.past e s') : ReadsArgument close s (.named n e) s'

/-- What stands before the next comma. -/
inductive ReadsSlot (close : TokenKind) : Tape → Argument → Tape → Prop where
  | empty {s : Tape} {t : Token} (ht : s.front = .ok t) (hk : t.kind = .comma) :
      ReadsSlot close s .empty s
  | filled {s s' : Tape} {t : Token} {a : Argument} (ht : s.front = .ok t) (hk : t.kind ≠ .comma)
      (ha : ReadsArgument E close s a s') : ReadsSlot close s a s'

/-- The slots up to the closing token, one at least. -/
inductive ReadsSlots (close : TokenKind) : Tape → List Argument → Tape → Prop where
  | last {s s' : Tape} {u : Token} {a : Argument} (ha : ReadsSlot E close s a s')
      (hu : s'.front = .ok u) (hc : u.kind ≠ .comma) (hk : u.kind = close) :
      ReadsSlots close s [a] s'
  | trailing {s s₁ : Tape} {u v : Token} {a : Argument} (ha : ReadsSlot E close s a s₁)
      (hu : s₁.front = .ok u) (hc : u.kind = .comma) (hv : s₁.past.front = .ok v)
      (hk : v.kind = close) : ReadsSlots close s [a, .empty] s₁.past
  | more {s s₁ s' : Tape} {u v : Token} {a : Argument} {as : List Argument}
      (ha : ReadsSlot E close s a s₁) (hu : s₁.front = .ok u) (hc : u.kind = .comma)
      (hv : s₁.past.front = .ok v) (hk : v.kind ≠ close) (hs : ReadsSlots close s₁.past as s') :
      ReadsSlots close s (a :: as) s'

/-- The slots between brackets, up to the closing token. -/
inductive ReadsArguments (close : TokenKind) : Tape → List Argument → Tape → Prop where
  | none {s : Tape} {t : Token} (ht : s.front = .ok t) (hk : t.kind = close) :
      ReadsArguments close s [] s
  | some {s s' : Tape} {t : Token} {as : List Argument} (ht : s.front = .ok t) (hk : t.kind ≠ close)
      (hs : ReadsSlots E close s as s') : ReadsArguments close s as s'

/-- The token or tokens that close a pair of brackets. -/
inductive ReadsClosing : Brackets → Tape → Tape → Prop where
  | single {s : Tape} {t : Token} {kind : Brackets} (ht : s.front = .ok t)
      (hk : t.kind = kind.closing) (hne : kind ≠ .element) : ReadsClosing kind s s.past
  | double {s : Tape} {t u : Token} (ht : s.front = .ok t) (hk : t.kind = .rbracket)
      (hu : s.past.front = .ok u) (hj : u.kind = .rbracket) (ho : u.offset = t.offset + 1) :
      ReadsClosing .element s s.past.past

/-- One call or subscript. -/
inductive ReadsGroup : Tape → Group → Tape → Prop where
  | mk {s s₁ s₂ : Tape} {t u : Token} {kind : Brackets} {as : List Argument} (ht : s.front = .ok t)
      (hk : Brackets.ofKind? t.kind = some kind) (hu : (s.past.enter .free).front = .ok u)
      (ha : ReadsArguments E kind.closing (s.past.enter .free) as s₁)
      (hc : ReadsClosing kind s₁ s₂) : ReadsGroup s (.mk u.loc kind as) s₂.leave

/-- The calls and subscripts that stand here. -/
inductive ReadsGroups : Tape → List Group → Tape → Prop where
  | stop {s : Tape} {t : Token} (ht : s.front = .ok t) (hk : Brackets.ofKind? t.kind = none) :
      ReadsGroups s [] s
  | more {s s₁ s' : Tape} {g : Group} {gs : List Group} (hg : ReadsGroup E s g s₁)
      (hs : ReadsGroups s₁ gs s') : ReadsGroups s (g :: gs) s'

/-- One parameter of a function. -/
inductive ReadsFormal : Tape → Formal → Tape → Prop where
  | required {s s' : Tape} {t : Token} {i : Identifier} (hi : ReadsName s i s')
      (ht : s'.front = .ok t) (hk : t.kind ≠ .eqAssign) : ReadsFormal s (.required i) s'
  | defaulted {s s₁ s' : Tape} {t : Token} {i : Identifier} {e : Expression}
      (hi : ReadsName s i s₁) (ht : s₁.front = .ok t) (hk : t.kind = .eqAssign)
      (he : E 0 s₁.past e s') : ReadsFormal s (.defaulted i e) s'

/-- The parameters up to the closing parenthesis, one at least. -/
inductive ReadsSomeFormals : Tape → List Formal → Tape → Prop where
  | last {s s' : Tape} {t : Token} {f : Formal} (hf : ReadsFormal E s f s') (ht : s'.front = .ok t)
      (hk : t.kind = .rparen) : ReadsSomeFormals s [f] s'
  | more {s s₁ s' : Tape} {t : Token} {f : Formal} {fs : List Formal} (hf : ReadsFormal E s f s₁)
      (ht : s₁.front = .ok t) (hk : t.kind = .comma) (hs : ReadsSomeFormals s₁.past fs s') :
      ReadsSomeFormals s (f :: fs) s'

/-- The parameters between parentheses. -/
inductive ReadsFormals : Tape → List Formal → Tape → Prop where
  | none {s : Tape} {t : Token} (ht : s.front = .ok t) (hk : t.kind = .rparen) :
      ReadsFormals s [] s
  | some {s s' : Tape} {t : Token} {fs : List Formal} (ht : s.front = .ok t) (hk : t.kind ≠ .rparen)
      (hs : ReadsSomeFormals E s fs s') : ReadsFormals s fs s'

end Bracketed

/-! ## Statements and operands -/

/-- Whether a statement may stand before the token. -/
def mayFollow (close k : TokenKind) : Bool :=
  separates k || k == .eof || k == close || startsExpression k

section Statement

variable (E : ExprReads)

/-- Statements up to the closing token. -/
inductive ReadsStatements (close : TokenKind) : Tape → List Expression → Tape → Prop where
  | skip {s s' : Tape} {t : Token} {es : List Expression} (ht : s.front = .ok t)
      (hk : separates t.kind = true) (hs : ReadsStatements close s.past es s') :
      ReadsStatements close s es s'
  | stop {s : Tape} {t : Token} (ht : s.front = .ok t) (hk : t.kind = close)
      (hsep : separates t.kind = false) : ReadsStatements close s [] s
  | more {s s₁ s' : Tape} {t u : Token} {e : Expression} {es : List Expression}
      (ht : s.front = .ok t) (hsep : separates t.kind = false) (hc : t.kind ≠ close)
      (heof : t.kind ≠ .eof) (he : E 0 s e s₁) (hu : s₁.front = .ok u)
      (hf : mayFollow close u.kind = true) (hs : ReadsStatements close s₁ es s') :
      ReadsStatements close s (e :: es) s'

/-- An expression in parentheses. -/
inductive ReadsParens : Tape → Expression → Tape → Prop where
  | mk {s s₁ : Tape} {t u : Token} {e : Expression} (ht : s.front = .ok t) (hk : t.kind = .lparen)
      (he : E 0 (s.past.enter .free) e s₁) (hu : s₁.front = .ok u) (hc : u.kind = .rparen) :
      ReadsParens s e s₁.past.leave

/-- An expression behind any line feeds. -/
inductive ReadsBehind (m : Nat) : Tape → Expression → Tape → Prop where
  | mk {s s' : Tape} {t : Token} {e : Expression} (ht : s.beyond = .ok t)
      (he : E m s.afterLines e s') : ReadsBehind m s e s'

/-- An operand without anything behind it. -/
inductive ReadsOperand : Tape → Operand → Tape → Prop where
  | constant {s : Tape} {t : Token} {c : Constant} (ht : s.front = .ok t)
      (hc : Constant.ofToken? t = some c) : ReadsOperand s (.constant c) s.past
  | identifier {s : Tape} {t : Token} (ht : s.front = .ok t)
      (hk : t.kind = .ident ∨ t.kind = .quotedIdent ∨ t.kind = .nextWord ∨ t.kind = .breakWord) :
      ReadsOperand s (.identifier (.ofToken t)) s.past
  | paren {s s' : Tape} {e : Expression} (he : ReadsParens E s e s') :
      ReadsOperand s (.paren e) s'
  | block {s s₁ : Tape} {t u : Token} {es : List Expression} (ht : s.front = .ok t)
      (hk : t.kind = .lbrace) (hs : ReadsStatements E .rbrace (s.past.enter .lined) es s₁)
      (hu : s₁.front = .ok u) (hc : u.kind = .rbrace) :
      ReadsOperand s (.block t.loc es u.loc) s₁.past.leave
  | function {s s₁ s' : Tape} {t u v : Token} {fs : List Formal} {e : Expression}
      (ht : s.front = .ok t) (hk : t.kind = .functionWord) (hu : s.past.front = .ok u)
      (ho : u.kind = .lparen) (hf : ReadsFormals E (s.past.past.enter .free) fs s₁)
      (hv : s₁.front = .ok v) (hc : v.kind = .rparen) (he : ReadsBehind E 0 s₁.past.leave e s') :
      ReadsOperand s (.function t.loc fs e) s'
  | ifThen {s s₁ s' : Tape} {t x : Token} {c e : Expression} (ht : s.front = .ok t)
      (hk : t.kind = .ifWord) (hp : ReadsParens E s.past c s₁) (he : ReadsBehind E 0 s₁ e s')
      (hx : s'.clause = .ok x) (hne : x.kind ≠ .elseWord) : ReadsOperand s (.ifThen t.loc c e) s'
  | ifElse {s s₁ s₂ s' : Tape} {t x y : Token} {c e o : Expression} (ht : s.front = .ok t)
      (hk : t.kind = .ifWord) (hp : ReadsParens E s.past c s₁) (he : ReadsBehind E 0 s₁ e s₂)
      (hx : s₂.clause = .ok x) (hj : x.kind = .elseWord) (hy : s₂.afterLines.front = .ok y)
      (hi : y.kind = .elseWord) (ho : ReadsBehind E 0 s₂.afterLines.past o s') :
      ReadsOperand s (.ifElse t.loc c e o) s'
  | forLoop {s s₁ s₂ s' : Tape} {t u v w : Token} {i : Identifier} {q e : Expression}
      (ht : s.front = .ok t) (hk : t.kind = .forWord) (hu : s.past.front = .ok u)
      (ho : u.kind = .lparen) (hi : ReadsName (s.past.past.enter .free) i s₁)
      (hv : s₁.front = .ok v) (hin : v.kind = .inWord) (hq : E 0 s₁.past q s₂)
      (hw : s₂.front = .ok w) (hc : w.kind = .rparen) (he : ReadsBehind E 0 s₂.past.leave e s') :
      ReadsOperand s (.forLoop t.loc i q e) s'
  | whileLoop {s s₁ s' : Tape} {t : Token} {c e : Expression} (ht : s.front = .ok t)
      (hk : t.kind = .whileWord) (hp : ReadsParens E s.past c s₁) (he : ReadsBehind E 0 s₁ e s') :
      ReadsOperand s (.whileLoop t.loc c e) s'
  | repeatLoop {s s' : Tape} {t : Token} {e : Expression} (ht : s.front = .ok t)
      (hk : t.kind = .repeatWord) (he : ReadsBehind E 0 s.past e s') :
      ReadsOperand s (.repeatLoop t.loc e) s'

/-- An operand with the calls and subscripts behind it. -/
inductive ReadsTerm : Tape → Term → Tape → Prop where
  | mk {s s₁ s' : Tape} {o : Operand} {gs : List Group} (ho : ReadsOperand E s o s₁)
      (hg : ReadsGroups E s₁ gs s') : ReadsTerm s (.mk o gs) s'

/-! ## Operators -/

/-- What stands before the first operator that takes two operands, from the token `t` on. -/
inductive ReadsLeading (t : Token) : Tape → Expression → Tape → Prop where
  | unary {s s' : Tape} {op : UnaryOp} {e : Expression} (hop : UnaryOp.ofKind? t.kind = some op)
      (he : ReadsBehind E op.power s.past e s') :
      ReadsLeading t s (.unary t.loc op (.ofExpression e)) s'
  | help {s s' : Tape} {e : Expression} (hk : t.kind = .question)
      (he : ReadsBehind E Power.helpTarget s.past e s') :
      ReadsLeading t s (.term t.loc (.mk (.help t.loc e) [])) s'
  | term {s s' : Tape} {x : Term} (hop : UnaryOp.ofKind? t.kind = none) (hk : t.kind ≠ .question)
      (hx : ReadsTerm E s x s') : ReadsLeading t s (.term t.loc x) s'

/-- The operand to the right of the operator `op`. -/
inductive ReadsRight (op : TokenKind) (power : Power) : Tape → Expression → Tape → Prop where
  | bare {s s' : Tape} {t : Token} {o : Operand} (hop : op = .dollar ∨ op = .atSign)
      (ht : s.front = .ok t) (ho : ReadsOperand E s o s') :
      ReadsRight op power s (.term t.loc (.mk o [])) s'
  | full {s s' : Tape} {e : Expression} (hop : ¬ (op = .dollar ∨ op = .atSign))
      (he : E power.right s e s') : ReadsRight op power s e s'

/-- What stands behind the operands read so far, which started at `loc`. -/
inductive ReadsOperations (m : Nat) (loc : Location) :
    Expression → Tape → Expression → Tape → Prop where
  | stop {s : Tape} {t : Token} {lhs : Expression} (ht : s.front = .ok t)
      (hb : Brackets.ofKind? t.kind = none) (hp : ∀ p, Power.ofKind? t.kind = some p → p.left < m) :
      ReadsOperations m loc lhs s lhs s
  | groups {s s₁ s' : Tape} {t : Token} {lhs e : Expression} {gs : List Group}
      (ht : s.front = .ok t) (hb : (Brackets.ofKind? t.kind).isSome = true)
      (hg : ReadsGroups E s gs s₁)
      (ho : ReadsOperations m loc (.term loc (.mk (.nested lhs) gs)) s₁ e s') :
      ReadsOperations m loc lhs s e s'
  | operator {s s₁ s' : Tape} {t u : Token} {p : Power} {lhs rhs e₁ e : Expression}
      (ht : s.front = .ok t) (hb : Brackets.ofKind? t.kind = none)
      (hp : Power.ofKind? t.kind = some p) (hm : m ≤ p.left) (hl : s.past.beyond = .ok u)
      (hr : ReadsRight E t.kind p s.past.afterLines rhs s₁)
      (hj : joined? loc lhs t rhs = some e₁) (ho : ReadsOperations m loc e₁ s₁ e s') :
      ReadsOperations m loc lhs s e s'

/-- An expression whose parts are read by `E`. -/
inductive ReadsLevel (m : Nat) : Tape → Expression → Tape → Prop where
  | mk {s s₁ s' : Tape} {t : Token} {lhs e : Expression} (ht : s.front = .ok t)
      (hl : ReadsLeading E t s lhs s₁) (ho : ReadsOperations E m t.loc lhs s₁ e s') :
      ReadsLevel m s e s'

end Statement

/-- An expression in which at most `levels` expressions, itself included, are nested. -/
def ReadsExpression : Nat → ExprReads
  | 0, _, _, _, _ => False
  | levels + 1, m, s, e, s' => ReadsLevel (ReadsExpression levels) m s e s'

end RSource.Grammar
