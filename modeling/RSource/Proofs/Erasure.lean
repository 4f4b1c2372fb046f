import RSource.Program
import RSource.Proofs.Spans

/-!
# Trees without places

* `Expression.erase`, `Term.erase`, `Operand.erase` and the like, `Program.erase` — a tree with all
  its places replaced by the first place of all.
* `Alike` — tokens of one kind that are spelled alike, powers apart.
* `Alike.identifier`, `Alike.constant`, `Alike.argName`, `joined_alike` — tokens that are alike are
  read as the same leaf or operator, places apart.
-/

namespace RSource

/-! ## Erasing the places -/

def Identifier.erase (i : Identifier) : Identifier := { i with loc := .start }

def Constant.erase (c : Constant) : Constant := { c with loc := .start }

def ArgName.erase : ArgName → ArgName
  | identifier i => identifier i.erase
  | constant c => constant c.erase

mutual

/-- An expression with all its places replaced by the first place of all. -/
def Expression.erase : Expression → Expression
  | .term _ t => .term .start (Term.erase t)
  | .unary _ op t => .unary .start op (Term.erase t)
  | .binary _ op l r => .binary .start op (Term.erase l) (Term.erase r)
  | .assign _ l _ op v => .assign .start (Term.erase l) .start op (Expression.erase v)

def Term.erase : Term → Term
  | .mk o gs => .mk (Operand.erase o) (eraseGroups gs)

def Operand.erase : Operand → Operand
  | .identifier i => .identifier i.erase
  | .constant c => .constant c.erase
  | .block _ es _ => .block .start (eraseExpressions es) .start
  | .function _ fs e => .function .start (eraseFormals fs) (Expression.erase e)
  | .ifThen _ c e => .ifThen .start (Expression.erase c) (Expression.erase e)
  | .ifElse _ c e o =>
      .ifElse .start (Expression.erase c) (Expression.erase e) (Expression.erase o)
  | .forLoop _ i s e => .forLoop .start i.erase (Expression.erase s) (Expression.erase e)
  | .whileLoop _ c e => .whileLoop .start (Expression.erase c) (Expression.erase e)
  | .repeatLoop _ e => .repeatLoop .start (Expression.erase e)
  | .help _ e => .help .start (Expression.erase e)
  | .paren e => .paren (Expression.erase e)
  | .nested e => .nested (Expression.erase e)

def Group.erase : Group → Group
  | .mk _ kind slots => .mk .start kind (eraseArguments slots)

def Argument.erase : Argument → Argument
  | .empty => .empty
  | .value e => .value (Expression.erase e)
  | .name n => .name n.erase
  | .named n e => .named n.erase (Expression.erase e)

def Formal.erase : Formal → Formal
  | .required i => .required i.erase
  | .defaulted i e => .defaulted i.erase (Expression.erase e)

def eraseExpressions : List Expression → List Expression
  | [] => []
  | e :: es => Expression.erase e :: eraseExpressions es

def eraseGroups : List Group → List Group
  | [] => []
  | g :: gs => Group.erase g :: eraseGroups gs

def eraseArguments : List Argument → List Argument
  | [] => []
  | a :: as => Argument.erase a :: eraseArguments as

def eraseFormals : List Formal → List Formal
  | [] => []
  | f :: fs => Formal.erase f :: eraseFormals fs

end

/-- **A program with all its places replaced by the first place of all.** -/
def Program.erase (p : Program) : Program := ⟨eraseExpressions p.statements⟩

@[simp] theorem Term.erase_ofExpression (e : Expression) :
    (Term.ofExpression e).erase = Term.ofExpression e.erase := by
  cases e <;> rfl

/-! ## Tokens that are alike -/

/-- Tokens of one kind that are spelled alike. The spelling of a power does not matter. -/
structure Alike (t u : Token) : Prop where
  kind : u.kind = t.kind
  lexeme : t.kind = .caret ∨ u.lexeme = t.lexeme

theorem Alike.of_code {t u : Token} {kind : TokenKind} {text : String}
    (ht : t.code = (kind, text)) (hk : u.kind = kind) (hl : u.lexeme = text) : Alike t u := by
  unfold Token.code at ht
  simp only [Prod.mk.injEq] at ht
  obtain ⟨rfl, rfl⟩ := ht
  refine ⟨hk, ?_⟩
  by_cases hc : t.kind = .caret
  · exact Or.inl hc
  · rw [if_neg hc] at hl
    exact Or.inr hl

namespace Alike

variable {t u : Token}

theorem identifier (h : Alike t u) (hc : t.kind ≠ .caret) :
    (Identifier.ofToken u).erase = (Identifier.ofToken t).erase := by
  have hl := h.lexeme.resolve_left hc
  unfold Identifier.ofToken
  rw [h.kind, hl]
  split <;> rfl

theorem constant {c : Constant} (h : Alike t u) (hc : Constant.ofToken? t = some c) :
    ∃ d, Constant.ofToken? u = some d ∧ d.erase = c.erase := by
  have hne : t.kind ≠ .caret := by
    rintro hk
    simp [Constant.ofToken?, hk, ConstantKind.ofKind?] at hc
  have hl := h.lexeme.resolve_left hne
  unfold Constant.ofToken? at hc ⊢
  rw [h.kind, hl]
  split at hc
  · cases hc
  · cases hc
    exact ⟨_, rfl, rfl⟩

theorem argName {n : ArgName} (h : Alike t u) (hn : ArgName.ofToken? t = some n) :
    ∃ m, ArgName.ofToken? u = some m ∧ m.erase = n.erase := by
  unfold ArgName.ofToken? at hn ⊢
  rw [h.kind]
  split at hn
  · rename_i hk
    cases hn
    exact ⟨_, rfl, congrArg ArgName.identifier (h.identifier (by simp [hk]))⟩
  · rename_i hk
    cases hn
    exact ⟨_, rfl, congrArg ArgName.identifier (h.identifier (by simp [hk]))⟩
  · obtain ⟨c, hc, rfl⟩ := Option.map_eq_some_iff.mp hn
    obtain ⟨d, hd, he⟩ := h.constant hc
    exact ⟨.constant d, by simp [hd], congrArg ArgName.constant he⟩
  · obtain ⟨c, hc, rfl⟩ := Option.map_eq_some_iff.mp hn
    obtain ⟨d, hd, he⟩ := h.constant hc
    exact ⟨.constant d, by simp [hd], congrArg ArgName.constant he⟩
  · cases hn

/-- Whether a token may name an argument depends on its kind alone. -/
theorem argName_none (h : u.kind = t.kind) (hn : ArgName.ofToken? t = none) :
    ArgName.ofToken? u = none := by
  unfold ArgName.ofToken? at hn ⊢
  rw [h]
  split at hn
  · cases hn
  · cases hn
  · rename_i hk
    simp [Constant.ofToken?, hk, ConstantKind.ofKind?] at hn
  · rename_i hk
    simp [Constant.ofToken?, hk, ConstantKind.ofKind?] at hn
  · rfl

end Alike

/-- Operands that are equal but for their places are joined to such a whole. -/
theorem Grammar.joined_alike {t u : Token} {loc loc' : Location} {lhs lhs' rhs rhs' e : Expression}
    (h : Alike t u) (hl : lhs'.erase = lhs.erase) (hr : rhs'.erase = rhs.erase)
    (hj : joined? loc lhs t rhs = some e) :
    ∃ e', joined? loc' lhs' u rhs' = some e' ∧ e'.erase = e.erase := by
  unfold joined? at hj ⊢
  rw [h.kind]
  split at hj
  · rename_i a _
    cases hj
    exact ⟨_, rfl, by simp [Expression.erase, hl, hr]⟩
  · split at hj
    · rename_i b hb
      cases hj
      have hb' : BinaryOp.ofToken? t.kind u.lexeme = some b := by
        rcases h.lexeme with hk | hlex
        · rw [hk] at hb ⊢
          exact hb
        · rw [hlex]
          exact hb
      rw [hb']
      exact ⟨_, rfl, by simp [Expression.erase, hl, hr]⟩
    · cases hj

end RSource
