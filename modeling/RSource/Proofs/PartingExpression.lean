import RSource.Proofs.PartingStatement
import RSource.Proofs.ReflowExpression
import RSource.Proofs.ReplayExpression

/-!
# Expressions and programs in two sources that part

* `decides_operand`, `follows_operand` — an operand takes a token that one begins with.
* `tracks_rightOperand`, `goes_operations` — what stands behind the first operand.
* `exists_parts_expression` — **an expression in the one source is followed by one in the other**,
  by induction on the levels of nesting.
* `Parting.follows_program` — **so is a whole program**: where the parse of the one source is
  refused at the token at which the sources part, that of the other faces the token that stands
  there.
-/

namespace RSource

open Parse Parting

namespace Grammar

variable {F : Parting} {ω : Type} {expr : ExprParse} {b n : Nat} {A : TokenKind → Prop}
  {v : Reply} {o : List Bracket} {ls : List Layout} {prev : Option (Token × Token)} {s r : Tape}

/-! ## Operands -/

/-- The tokens that an operand may begin with: no operator stands before one. -/
def startsOperand (k : TokenKind) : Prop :=
  startsExpression k = true ∧ UnaryOp.ofKind? k = none ∧ k ≠ .question

/-- What is done about an operand that begins with the token. -/
def operandFrom (expr : ExprParse) (b : Nat) (K : Operand → Parse ω) (t : Token) : Parse ω :=
  match Constant.ofToken? t with
  | some c => drop.bind fun _ => K (.constant c)
  | none =>
      match t.kind with
      | .ident | .quotedIdent | .nextWord | .breakWord =>
          drop.bind fun _ => K (.identifier (.ofToken t))
      | .lparen => (paren expr).bind K
      | .lbrace => (block expr b).bind K
      | .functionWord => (function expr b).bind K
      | .ifWord => (ifForm expr).bind K
      | .forWord => (forLoop expr).bind K
      | .whileWord => (whileLoop expr).bind K
      | .repeatWord => (repeatLoop expr).bind K
      | _ => .reject [.expression]

theorem operand_bind (expr : ExprParse) (b : Nat) (K : Operand → Parse ω) :
    (operand expr b).bind K = look.bind (operandFrom expr b K) := by
  simp only [operand, bind_eq_bind, pure_eq_done, bind_bind]
  congr 1
  funext t
  unfold operandFrom
  cases Constant.ofToken? t with
  | some c => rfl
  | none =>
      simp only
      generalize t.kind = k
      cases k <;> rfl

/-- No constant begins with an operator. -/
theorem startsOperand_of_constant {t : Token} {c : Constant} (h : Constant.ofToken? t = some c) :
    startsOperand t.kind := by
  unfold Constant.ofToken? at h
  generalize t.kind = k at h
  cases k <;> first | (cases h; done) | exact ⟨rfl, rfl, by simp⟩

/-- A token that is no constant begins an operand if it is a name or a bracket or begins a form. -/
theorem not_startsOperand {t : Token} (h : Constant.ofToken? t = none)
    (hk : t.kind ∉ ([.ident, .quotedIdent, .nextWord, .breakWord, .lparen, .lbrace, .functionWord,
      .ifWord, .forWord, .whileWord, .repeatWord] : List TokenKind)) : ¬ startsOperand t.kind := by
  unfold Constant.ofToken? at h
  generalize t.kind = k at h hk
  rintro ⟨hstarts, hunary, hquestion⟩
  cases k with
  | num form => cases form <;> cases h
  | _ => simp_all [ConstantKind.ofKind?, startsExpression, UnaryOp.ofKind?]

theorem decides_operand (expr : ExprParse) (b : Nat) (K : Operand → Parse ω) :
    Decides startsOperand (.refused [.expression]) ((operand expr b).bind K) := by
  rw [operand_bind]
  intro u a h
  change (operandFrom expr b K u).Faces u a at h
  rw [operandFrom] at h
  cases hc : Constant.ofToken? u with
  | some c =>
      rw [hc] at h
      exact Or.inl ⟨startsOperand_of_constant hc, Or.inl h⟩
  | none =>
      rw [hc] at h
      have htaken {kind : TokenKind} (hk : u.kind = kind) (hstarts : startsOperand kind)
          (ht : a = .taken) : startsOperand u.kind ∧ (a = .taken ∨ a = .broken) ∨
            (startsOperand u.kind → Reply.refused [.expression] = .tooDeep) ∧
              a = .refused [.expression] := Or.inl ⟨hk ▸ hstarts, Or.inl ht⟩
      simp only at h
      split at h
      case h_1 hk | h_2 hk | h_3 hk | h_4 hk => exact htaken hk ⟨rfl, rfl, by simp⟩ h
      case h_12 =>
        refine Or.inr ⟨fun hk => absurd hk (not_startsOperand hc ?_), h⟩
        simp_all
      all_goals
        rename_i hk
        simp only [paren_bind, parenthesized_bind, block_bind, function_bind, ifForm_bind,
          forLoop_bind, whileLoop_bind, repeatLoop_bind] at h
        exact htaken hk ⟨rfl, rfl, by simp⟩ (takes_demand _ _ u a hk h)

theorem fair_expression : Fair startsOperand (.refused [.expression]) := by
  refine Or.inr ⟨_, rfl, fun y hy => ?_⟩
  obtain rfl := List.mem_singleton.mp hy
  refine ⟨trivial, fun k hk => ?_⟩
  rcases hk with rfl | rfl <;> exact ⟨rfl, rfl, by simp⟩

/-- Where an expression begins with no line feed, it is enough to decide about its first token. -/
theorem lawful_of_start {B : TokenKind → Prop} {p q : Parse ω}
    (hstart : ls.head? = some .free ∨ F.old.kind ≠ .newline) (hp : Decides B v p)
    (hq : Decides B v q) (hv : Fair B v) (hend : ¬ B .eof) :
    F.Lawful (ls.head? == some .free) p q := by
  refine lawful_of_decides hp hq hv hend fun hold hl => ?_
  rcases hstart with hfree | hne
  · simp [hfree] at hl
  · exact absurd hold hne

section Level

variable (hE : F.Parts ω expr b A v)

include hE

theorem follows_operand (h : F.At ⟨o, false⟩ ls prev (n + 1) s r) (hb : n + 1 ≤ b)
    (hstart : ¬ F.Before s → ls.head? = some .free ∨ F.old.kind ≠ .newline)
    {K K' : Operand → Parse ω} (hK : ∀ x x', F.Goes ⟨o, false⟩ ls n (K x) (K' x')) :
    F.Follows ((operand expr b).bind K) ((operand expr b).bind K') s r := by
  have hlawful (hb' : ¬ F.Before s) : F.Lawful (ls.head? == some .free)
      ((operand expr b).bind K) ((operand expr b).bind K') :=
    lawful_of_start (hstart hb') (decides_operand expr b K) (decides_operand expr b K')
      fair_expression (by simp [startsOperand, startsExpression])
  rw [operand_bind, operand_bind] at *
  refine h.look (fun _ => hlawful) fun u w hu hw huw hk hbefore => ?_
  have hleaf (x x' : Operand) (hstep : Scope.step ⟨o, false⟩ u.kind = ⟨o, false⟩) :
      F.Follows (drop.bind fun _ => K x) (drop.bind fun _ => K' x') s r := by
    refine h.drop hu hk fun m prev' hm hat => ?_
    rw [hstep] at hat
    exact (hK x x').follows m prev' _ _ (by omega) hat
  have hconstant := huw.constant
  rw [operandFrom, operandFrom]
  cases hc : Constant.ofToken? u with
  | some c =>
      obtain ⟨c', hc', -⟩ : ∃ c', Constant.ofToken? w = some c' ∧
          c'.relocate Location.toStart = c.relocate Location.toStart := by
        simpa [hc] using hconstant.symm
      have hkind : (ConstantKind.ofKind? u.kind).isSome = true := by
        unfold Constant.ofToken? at hc
        split at hc
        · cases hc
        · rename_i hkind
          rw [hkind]
          rfl
      rw [hc']
      exact hleaf _ _ (step_leaf (by simp [hkind])).1
  | none =>
      have hc' : Constant.ofToken? w = none := by simpa [hc] using hconstant.symm
      rw [hc']
      simp only [huw.kind]
      split
      case h_5 => exact follows_paren hE h hb hK hbefore
      case h_6 hk =>
        exact follows_block hE h hu hw huw hk hb fun x x' m prev s r hm hat =>
          (hK x x').follows m prev s r (by omega) hat
      case h_7 hk => exact follows_function hE h hu hw huw hb hK hk
      case h_8 hk => exact follows_ifForm hE h hu hw huw hb hK hk
      case h_9 hk => exact follows_forLoop hE h hu hw huw hb hK hk
      case h_10 hk => exact follows_whileLoop hE h hu hw huw hb hK hk
      case h_11 hk => exact follows_repeatLoop hE h hu hw huw hb hK hk
      case h_12 => exact hbefore.passes_reject.follows
      all_goals
        rename_i hk
        exact hleaf _ _ (step_leaf (by simp [hk])).1

theorem follows_term (h : F.At ⟨o, false⟩ ls prev (n + 1) s r) (hb : n + 1 ≤ b)
    (hstart : ¬ F.Before s → ls.head? = some .free ∨ F.old.kind ≠ .newline)
    {K K' : Term → Parse ω} (hK : ∀ x x', F.Goes ⟨o, false⟩ ls n (K x) (K' x')) :
    F.Follows ((term expr b).bind K) ((term expr b).bind K') s r := by
  simp only [term, bind_eq_bind, pure_eq_done, bind_bind, done_bind]
  refine follows_operand hE h hb hstart fun x x' => ?_
  exact goes_groups hE (by omega) (by omega) fun gs gs' => hK _ _

/-! ## Operators -/

omit hE in
theorem rightOperand_bind (expr : ExprParse) (b : Nat) (op : TokenKind) (power : Power)
    (K : Expression → Parse ω) :
    (rightOperand expr b op power).bind K =
      if op = .dollar ∨ op = .atSign then
        look.bind fun t => (operand expr b).bind fun x => K (.term t.loc (.mk x []))
      else (expr power.right).bind K := by
  simp only [rightOperand, bind_eq_bind, pure_eq_done, bind_bind, ite_bind, done_bind]

/-- What stands to the right of an operator, behind line feeds. -/
theorem tracks_rightOperand (op : TokenKind) (power : Power) (hb : n ≤ b)
    {K K' : Expression → Parse ω} (hK : ∀ e e', F.Goes ⟨o, false⟩ ls (n - 1) (K e) (K' e')) :
    F.Tracks ⟨o, false⟩ ls n (dropLines.bind fun _ => (rightOperand expr b op power).bind K)
      (dropLines.bind fun _ => (rightOperand expr b op power).bind K') := by
  rw [rightOperand_bind, rightOperand_bind]
  split
  · intro m prev s r hm hat
    refine hat.dropLines fun hat hline => ?_
    have hstart (h : ¬ F.Before s.afterLines) : ls.head? = some .free ∨ F.old.kind ≠ .newline :=
      Or.inr (hline h)
    obtain ⟨m, rfl⟩ := hat.exists_succ
    refine hat.look (fun _ h => ?_) fun u w _ _ _ _ _ => ?_
    · exact lawful_of_start (hstart h) (decides_look fun t => decides_operand expr b _)
        (decides_look fun t => decides_operand expr b _) fair_expression
        (by simp [startsOperand, startsExpression])
    · exact follows_operand hE hat (by omega) hstart fun x x' => (hK _ _).mono (by omega)
  · exact tracks_behind hE _ hb hK

omit hE in
/-- The token is an operator of at least the given power, or a bracket behind an operand. -/
def goesOn (minPower : Nat) (k : TokenKind) : Prop :=
  (Brackets.ofKind? k).isSome = true ∨
    ∃ power, Power.ofKind? k = some power ∧ ¬ power.left < minPower

omit hE in
/-- An operator between two operands joins them. -/
theorem isSome_joined {op : Token} {power : Power} (h : Power.ofKind? op.kind = some power)
    (loc : Location) (lhs rhs : Expression) : (joined? loc lhs op rhs).isSome = true := by
  unfold joined?
  generalize op.kind = k at h
  cases k <;> first | rfl | cases h

/-- What is done behind the operands read so far about the token that stands there. -/
def operationsFrom (expr : ExprParse) (b minPower : Nat) (loc : Location) (k : Nat)
    (lhs : Expression) (K : Expression → Parse ω) (op : Token) : Parse ω :=
  if (Brackets.ofKind? op.kind).isSome then
    (groups expr b b).bind fun gs =>
      (operations expr b minPower loc k (.term loc (.mk (.nested lhs) gs))).bind K
  else
    match Power.ofKind? op.kind with
    | none => K lhs
    | some power =>
        if power.left < minPower then K lhs
        else
          drop.bind fun _ => dropLines.bind fun _ =>
            (rightOperand expr b op.kind power).bind fun rhs =>
              match joined? loc lhs op rhs with
              | none => .reject [.statementEnd]
              | some e => (operations expr b minPower loc k e).bind K

omit hE in
theorem operations_bind (expr : ExprParse) (b minPower : Nat) (loc : Location) (k : Nat)
    (lhs : Expression) (K : Expression → Parse ω) :
    (operations expr b minPower loc (k + 1) lhs).bind K =
      look.bind (operationsFrom expr b minPower loc k lhs K) := by
  simp only [operations, bind_eq_bind, pure_eq_done, bind_bind]
  congr 1
  funext op
  unfold operationsFrom
  split
  · rw [bind_bind]
  · cases Power.ofKind? op.kind with
    | none => rfl
    | some power =>
        simp only
        split
        · rfl
        · simp only [bind_bind]
          congr 1
          funext _
          congr 1
          funext _
          congr 1
          funext rhs
          cases joined? loc lhs op rhs <;> rfl

omit hE in
theorem faces_operations {minPower k : Nat} {loc : Location} {lhs : Expression}
    {K : Expression → Parse ω} (u : Token) (a : Reply)
    (h : ((operations expr (b + 1) minPower loc (k + 1) lhs).bind K).Faces u a) :
    goesOn minPower u.kind ∧ (a = .taken ∨ a = .broken) ∨
      ¬ goesOn minPower u.kind ∧ (K lhs).Faces u a := by
  rw [operations_bind] at h
  change (operationsFrom expr (b + 1) minPower loc k lhs K u).Faces u a at h
  rw [operationsFrom] at h
  split at h
  · rename_i hbracket
    rcases faces_groups u a h with ⟨-, ht⟩ | ⟨hn, -⟩
    · exact Or.inl ⟨Or.inl hbracket, Or.inl ht⟩
    · exact absurd hbracket hn
  · rename_i hbracket
    cases hpower : Power.ofKind? u.kind with
    | none =>
        rw [hpower] at h
        refine Or.inr ⟨?_, h⟩
        rintro (hb | ⟨power, hp, -⟩)
        · exact hbracket hb
        · rw [hpower] at hp
          cases hp
    | some power =>
        rw [hpower] at h
        simp only at h
        split at h
        · rename_i hlt
          refine Or.inr ⟨?_, h⟩
          rintro (hb | ⟨power', hp, hle⟩)
          · exact hbracket hb
          · rw [hpower] at hp
            cases hp
            exact hle hlt
        · rename_i hle
          exact Or.inl ⟨Or.inr ⟨power, hpower, hle⟩, Or.inl h⟩

theorem goes_operations {minPower k : Nat} {loc loc' : Location} {lhs lhs' : Expression}
    (hb : n ≤ b) (hk : n ≤ k) {K K' : Expression → Parse ω}
    (hK : ∀ e e', F.Goes ⟨o, false⟩ ls n (K e) (K' e')) :
    F.Goes ⟨o, false⟩ ls n ((operations expr b minPower loc k lhs).bind K)
      ((operations expr b minPower loc' k lhs').bind K') := by
  induction k generalizing n lhs lhs' with
  | zero =>
      obtain rfl := Nat.le_zero.mp hk
      exact Goes.zero
  | succ k ih =>
      have hlawful (hpos : 0 < n) (hscope : F.scope = ⟨o, false⟩) :
          F.Lawful (ls.head? == some .free)
            ((operations expr b minPower loc (k + 1) lhs).bind K)
            ((operations expr b minPower loc' (k + 1) lhs').bind K') := by
        obtain ⟨b, rfl⟩ := Nat.exists_eq_add_one_of_ne_zero (Nat.ne_of_gt
          (Nat.lt_of_lt_of_le hpos hb))
        exact lawful_of_passes faces_operations faces_operations
          (by simp [goesOn, Brackets.ofKind?, Power.ofKind?]) ((hK lhs lhs').lawful hpos hscope)
      rw [operations_bind, operations_bind] at *
      refine Goes.of_look hlawful fun m prev s r u v hm hat hu hv huv hne _ => ?_
      rw [operationsFrom, operationsFrom, huv.kind]
      have hrest (m) (hm : m + 1 ≤ n) (e e' : Expression) : F.Goes ⟨o, false⟩ ls m
          ((operations expr b minPower loc k e).bind K)
          ((operations expr b minPower loc' k e').bind K') :=
        ih (by omega) (by omega) fun e e' => (hK e e').mono (by omega)
      obtain ⟨m, rfl⟩ := hat.exists_succ
      split
      · rename_i hbracket
        exact follows_someGroups hE hat hu hv huv hbracket (by omega) (by omega)
          fun gs gs' => hrest m hm _ _
      · cases hpower : Power.ofKind? u.kind with
        | none => exact (hK _ _).follows (m + 1) prev s r hm hat
        | some power =>
            simp only
            split
            · exact (hK _ _).follows (m + 1) prev s r hm hat
            · refine hat.drop hu hne fun m' prev' hm' hat => ?_
              rw [Scope.step_power hpower] at hat
              refine tracks_rightOperand hE _ _ (n := m) (by omega) (fun rhs rhs' => ?_) m' prev'
                _ _
                (by omega) hat
              obtain ⟨e, he⟩ := Option.isSome_iff_exists.mp (isSome_joined hpower loc lhs rhs)
              obtain ⟨e', he'⟩ := Option.isSome_iff_exists.mp
                (isSome_joined (huv.kind ▸ hpower) loc' lhs' rhs')
              rw [he, he']
              exact hrest (m - 1) (by omega) e e'

/-! ## Expressions -/

omit hE in
theorem leading_bind (expr : ExprParse) (b : Nat) (t : Token) (K : Expression → Parse ω) :
    (leading expr b t).bind K =
      match UnaryOp.ofKind? t.kind with
      | some op => drop.bind fun _ => dropLines.bind fun _ => (expr op.power).bind fun e =>
          K (.unary t.loc op (.ofExpression e))
      | none =>
          if t.kind = .question then
            drop.bind fun _ => dropLines.bind fun _ => (expr Power.helpTarget).bind fun e =>
              K (.term t.loc (.mk (.help t.loc e) []))
          else (term expr b).bind fun x => K (.term t.loc x) := by
  unfold leading
  cases UnaryOp.ofKind? t.kind with
  | some op => simp only [bind_eq_bind, pure_eq_done, bind_bind, done_bind]
  | none => simp only [bind_eq_bind, pure_eq_done, ite_bind, bind_bind, done_bind]

omit hE in
theorem level_bind (expr : ExprParse) (b minPower : Nat) (K : Expression → Parse ω) :
    (level expr b minPower).bind K = look.bind fun t =>
      (leading expr b t).bind fun lhs => (operations expr b minPower t.loc b lhs).bind K := by
  simp only [level, bind_eq_bind, bind_bind]

omit hE in
/-- An operator before its operand is a token that an expression may begin with. -/
theorem starts_of_unary {k : TokenKind} {op : UnaryOp} (h : UnaryOp.ofKind? k = some op) :
    startsExpression k = true := by
  cases k <;> first | rfl | cases h

omit hE in
theorem decides_level (expr : ExprParse) (b minPower : Nat) (K : Expression → Parse ω) :
    Decides (startsExpression · = true) (.refused [.expression])
      ((level expr b minPower).bind K) := by
  rw [level_bind]
  intro u a h
  change ((leading expr b u).bind _).Faces u a at h
  rw [leading_bind] at h
  cases hop : UnaryOp.ofKind? u.kind with
  | some op =>
      rw [hop] at h
      exact Or.inl ⟨starts_of_unary hop, Or.inl h⟩
  | none =>
      rw [hop] at h
      simp only at h
      split at h
      · rename_i hk
        exact Or.inl ⟨by rw [hk]; rfl, Or.inl h⟩
      · rename_i hk
        simp only [term, bind_eq_bind, pure_eq_done, bind_bind] at h
        rcases decides_operand expr b _ u a h with ⟨hA, h⟩ | ⟨hA, h⟩
        · exact Or.inl ⟨hA.1, h⟩
        · exact Or.inr ⟨fun hs => hA ⟨hs, hop, hk⟩, h⟩

theorem follows_leading {u w : Token} (h : F.At ⟨o, false⟩ ls prev (n + 1) s r)
    (hu : s.front = .ok u) (hne : u.kind ≠ .eof) (huw : w.kind = u.kind) (hbefore : F.Before s)
    (hb : n + 1 ≤ b) {K K' : Expression → Parse ω}
    (hK : ∀ e e', F.Goes ⟨o, false⟩ ls n (K e) (K' e')) :
    F.Follows ((leading expr b u).bind K) ((leading expr b w).bind K') s r := by
  rw [leading_bind, leading_bind, huw]
  cases hop : UnaryOp.ofKind? u.kind with
  | some op =>
      refine h.drop hu hne fun m prev' hm hat => ?_
      rw [Scope.step_unary hop] at hat
      exact tracks_behind hE op.power (n := n) (by omega) (fun e e' => (hK _ _).mono (by omega))
        m prev' _ _ (by omega) hat
  | none =>
      simp only
      split
      · rename_i hk
        refine h.drop hu hne fun m prev' hm hat => ?_
        rw [hk] at hat
        exact tracks_behind hE Power.helpTarget (n := n) (by omega)
          (fun e e' => (hK _ _).mono (by omega)) m prev' _ _ (by omega) hat
      · exact follows_term hE h hb (fun h => absurd hbefore h) fun x x' => hK _ _

theorem parts_level : F.Parts ω (level expr b) b (startsExpression · = true)
    (.refused [.expression]) := by
  refine ⟨⟨fun i K => decides_level expr b i K, Or.inl ⟨fun k => Iff.rfl, rfl⟩⟩, ?_⟩
  intro i K K' o ls prev n s r h hb hstart hK
  have hlawful (hb' : ¬ F.Before s) : F.Lawful (ls.head? == some .free)
      ((level expr b i).bind K) ((level expr b i).bind K') :=
    lawful_of_start (hstart hb') (decides_level expr b i K) (decides_level expr b i K')
      (fair_expression.mono fun k hk => hk.1) (by simp [startsExpression])
  rw [level_bind, level_bind] at *
  refine h.look (fun _ => hlawful) fun u w hu hw huw hk hbefore => ?_
  refine follows_leading hE h hu hk huw.kind hbefore hb fun e e' => ?_
  exact goes_operations hE (by omega) (by omega) hK

end Level

/-- **An expression in the one source is followed by one in the other**, however deep it may be
nested. -/
theorem exists_parts_expression (F : Parting) (ω : Type) (b levels : Nat) :
    ∃ A v, F.Parts ω (expression b levels) b A v := by
  induction levels with
  | zero =>
      refine ⟨fun _ => False, .tooDeep, ⟨fun i K u a h => ?_, ?_⟩, ?_⟩
      · exact Or.inr ⟨False.elim, h⟩
      · exact Or.inr ⟨fun _ h => h, rfl⟩
      · intro i K K' o ls prev n s r _ _ _ _
        exact passes_tooDeep.follows
  | succ levels ih =>
      obtain ⟨A, v, hE⟩ := ih
      exact ⟨_, _, parts_level hE⟩

end Grammar

/-! ## Programs -/

/-- **A program in the one source is followed by one in the other.** -/
theorem Parting.follows_program {F : Parting} {n : Nat} {s r : Tape}
    (h : F.At .start [] none n s r) :
    F.Follows (Grammar.program n) (Grammar.program n) s r := by
  obtain ⟨A, v, hE⟩ := Grammar.exists_parts_expression F Program n maxNesting
  have hcloses (es : List Expression) : Grammar.Closes .eof (done (⟨es⟩ : Program)) :=
    fun _ _ _ ha => ha
  have hgoes : F.Goes .start [] n (Grammar.program n) (Grammar.program n) :=
    Grammar.goes_statements hE (Or.inl rfl) (Nat.le_refl n) (Nat.le_refl n)
      (fun es => ⟨hcloses es, hcloses es⟩) fun es es' m prev s r u v _ _ _ _ _ _ =>
      (passes_done _).follows
  exact hgoes.follows n none s r (Nat.le_refl n) h

end RSource
