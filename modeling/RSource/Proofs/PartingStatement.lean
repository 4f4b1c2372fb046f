import Mathlib.Data.List.DropRight
import RSource.Proofs.PartingBracketed
import RSource.Proofs.ReflowStatement

/-!
# Statements and control forms in two sources that part

* `Ahead`, `lawful_of_ahead` — what a parse of statements does about the next token: line feeds
  separate statements, so none is refused.
* `goes_statements` — the statements up to a closing token.
* `follows_parenthesized`, `tracks_body`, `follows_else` — what stands in a header, behind it, and
  behind the first branch of an `if`.
* `follows_block`, `follows_function`, `follows_ifForm` and the like — **the operands that hold
  statements or expressions**.
-/

namespace RSource

open Parse Parting

/-! ## What statements do about a token -/

namespace Parting

variable {F : Parting} {ω : Type} {free : Bool} {p q : Parse ω}

/-- A parse whose replies depend on the kind of the token alone is lawful, if it takes what it
expects. -/
theorem lawful_of_kinds {R : TokenKind → Reply → Prop} (hp : ∀ u o, p.Faces u o → R u.kind o)
    (hq : ∀ u o, q.Faces u o → R u.kind o) (hsteady : ∀ k, ¬ R k .moved) (hend : ¬ R .eof .taken)
    (hlines : ∀ x, ¬ R .newline (.refused x))
    (husual : ∀ k x, R k (.refused x) → ∀ y ∈ x, y.IsExpected)
    (hsame : ∀ k x o, R k (.refused x) → R k o → o = .refused x)
    (hnext : ∀ k x y k' o, R k (.refused x) → y ∈ x → y.Accepts k' → R k' o →
      o = .taken ∨ o = .returned ∨ o = .broken) : F.Lawful free p q := by
  refine ⟨fun u h => hsteady _ (hp _ _ h), fun u hu h => hend (hu ▸ hp _ _ h),
    fun hn _ x hx => absurd (hn ▸ hp _ _ hx) (hlines x), fun x hx => husual _ x (hp _ _ hx),
    fun _ hagain x hx o ho => ?_, fun _ x hx hfits o ho => ?_⟩
  · have hnew := hq _ _ ho
    rw [hagain.like.kind] at hnew
    exact hsame _ x o (hp _ _ hx) hnew
  · obtain ⟨y, hy, hk⟩ := hfits.accepts
    exact hnext _ x y _ o (hp _ _ hx) hy hk (hq _ _ ho)

end Parting

namespace Grammar

variable {F : Parting} {ω : Type} {expr : ExprParse} {b n : Nat} {A : TokenKind → Prop}
  {v w : Reply} {o : List Bracket} {ls : List Layout} {prev : Option (Token × Token)} {s r : Tape}
  {close : TokenKind}

/-- What a parse of statements may do about a token of a kind: `v` is the reply of an expression to
a token that none begins with, `w` the reply to a token that no statement begins with. -/
inductive Ahead (close : TokenKind) (v w : Reply) : TokenKind → Reply → Prop where
  | separator {k : TokenKind} (h : separates k = true) : Ahead close v w k .taken
  | closed (h : close ≠ .eof) : Ahead close v w close .taken
  | ended (h : close = .eof) : Ahead close v w .eof .returned
  | unclosed (h : close ≠ .eof) : Ahead close v w .eof (.refused [.token close])
  | starts {k : TokenKind} {o : Reply} (h : startsExpression k = true)
      (ho : o = .taken ∨ o = .broken ∨ o = .tooDeep ∧ v = .tooDeep) : Ahead close v w k o
  | other {k : TokenKind} (hseparates : separates k = false) (hclose : k ≠ close) (hend : k ≠ .eof)
      (hstarts : startsExpression k = false) : Ahead close v w k w

/-- What a parse of statements may reply to a token that no statement begins with. -/
def Suits (close : TokenKind) (v w : Reply) : Prop :=
  w = .tooDeep ∨ v ≠ .tooDeep ∧ w = .refused [.expression] ∨ w = .refused (afterStatement close)

/-- A parse of statements does not look behind a token that it expects. -/
theorem Ahead.accepted {k : TokenKind} {a : Reply} (h : Ahead close v w k a)
    (hk : separates k = true ∨ startsExpression k = true ∧ v ≠ .tooDeep ∨ k = close)
    (hclose : startsExpression close = false) : a = .taken ∨ a = .returned ∨ a = .broken := by
  cases h with
  | separator | closed => exact Or.inl rfl
  | ended => exact Or.inr (Or.inl rfl)
  | unclosed h => simp [separates, startsExpression, Ne.symm h] at hk
  | starts hs ho =>
      rcases ho with ho | ho | ⟨-, hv⟩
      · exact Or.inl ho
      · exact Or.inr (Or.inr ho)
      · rcases hk with hk | ⟨-, hv'⟩ | rfl
        · cases k <;> simp_all [separates, startsExpression]
        · exact absurd hv hv'
        · rw [hclose] at hs
          cases hs
  | other hseparates hclose' _ hstarts => simp [hseparates, hclose', hstarts] at hk

theorem mem_afterStatement {y : Continuation} (h : y ∈ afterStatement close) :
    y = .statementEnd ∨ y = .token close ∧ close ≠ .eof := by
  unfold afterStatement at h
  split at h
  · exact Or.inl (List.mem_singleton.mp h)
  · rename_i hne
    simp only [List.mem_cons, List.not_mem_nil, or_false] at h
    exact h.imp_right fun h => ⟨h, hne⟩

/-- What a parse of statements expects: an expression, an end of the statement, or the closing
token. -/
theorem Ahead.expected {k : TokenKind} {x : List Continuation} {y : Continuation}
    (h : Ahead close v w k (.refused x)) (hw : Suits close v w) (hy : y ∈ x) :
    y = .expression ∧ v ≠ .tooDeep ∨ y = .statementEnd ∨ y = .token close ∧ close ≠ .eof := by
  cases h with
  | unclosed hne => exact Or.inr (Or.inr ⟨List.mem_singleton.mp hy, hne⟩)
  | starts _ ho => simp at ho
  | other =>
      rcases hw with hw | ⟨hv, hw⟩ | hw <;> cases hw
      · exact Or.inl ⟨List.mem_singleton.mp hy, hv⟩
      · exact Or.inr (mem_afterStatement hy)

/-- A token that is refused is never taken. -/
theorem Ahead.same {k : TokenKind} {x : List Continuation} {a : Reply}
    (h : Ahead close v w k (.refused x)) (h' : Ahead close v w k a) : a = .refused x := by
  cases h with
  | unclosed hne =>
      cases h' with
      | separator h => simp [separates] at h
      | closed => exact absurd rfl hne
      | ended h => exact absurd h hne
      | unclosed => rfl
      | starts h => simp [startsExpression] at h
      | other _ _ hend => exact absurd rfl hend
  | starts _ ho => simp at ho
  | other hseparates hne hend hstarts =>
      cases h' with
      | separator h => simp [h] at hseparates
      | closed => exact absurd rfl hne
      | ended | unclosed => exact absurd rfl hend
      | starts h => simp [h] at hstarts
      | other => rfl

theorem lawful_of_ahead {p q : Parse ω} {free : Bool}
    (hp : ∀ u o, p.Faces u o → Ahead close v w u.kind o)
    (hq : ∀ u o, q.Faces u o → Ahead close v w u.kind o)
    (hclose : close = .eof ∨ close = .rbrace) (hw : Suits close v w) :
    F.Lawful free p q := by
  have hstarts : startsExpression close = false := by rcases hclose with rfl | rfl <;> rfl
  have hexpected (hne : close ≠ .eof) : close.isExpected = true := by
    rw [hclose.resolve_left hne]
    rfl
  refine lawful_of_kinds hp hq (fun k h => ?_) (fun h => ?_) (fun x h => ?_) (fun k x hx y hy => ?_)
    (fun k x a hx h => hx.same h) fun k x y k' a hx hy hk' h => h.accepted ?_ hstarts
  · rcases hw with rfl | ⟨-, rfl⟩ | rfl <;> cases h
    all_goals rename_i ho; simp at ho
  · cases h with
    | separator h => simp [separates] at h
    | closed h => exact h rfl
    | starts h => simp [startsExpression] at h
    | other _ _ hend => exact hend rfl
  · cases h with
    | starts h => simp [startsExpression] at h
    | other h => simp [separates] at h
  · rcases hx.expected hw hy with ⟨rfl, -⟩ | rfl | ⟨rfl, hne⟩
    · trivial
    · trivial
    · exact hexpected hne
  · rcases hx.expected hw hy with ⟨rfl, hv⟩ | rfl | ⟨rfl, -⟩
    · refine Or.inr (Or.inl ⟨?_, hv⟩)
      rcases hk' with rfl | rfl <;> rfl
    · refine Or.inl ?_
      rw [show k' = .semicolon from hk']
      rfl
    · exact Or.inr (Or.inr hk')

/-! ## Statements -/

/-- The parse takes the closing token; the end of the input is left. -/
def Closes (close : TokenKind) (p : Parse ω) : Prop :=
  ∀ u o, u.kind = close → p.Faces u o → o = if close = .eof then .returned else .taken

theorem Closes.ahead {p : Parse ω} (h : Closes close p) {u : Token} {a : Reply}
    (hu : u.kind = close) (ha : p.Faces u a) : Ahead close v w u.kind a := by
  have hreply := h u a hu ha
  split at hreply
  · rename_i he
    rw [hu, hreply]
    subst he
    exact .ended rfl
  · rename_i he
    rw [hu, hreply]
    exact .closed he

/-- What stands behind a statement: one more, or the closing token. -/
def behindStatement (expr : ExprParse) (close : TokenKind) (k : Nat)
    (K : List Expression → Parse ω) : Parse ω :=
  look.bind fun t =>
    if separates t.kind || t.kind == .eof || t.kind == close || startsExpression t.kind then
      (statements expr close k).bind K
    else .reject (afterStatement close)

theorem statements_bind (expr : ExprParse) (close : TokenKind) (k : Nat)
    (K : List Expression → Parse ω) :
    (statements expr close (k + 1)).bind K = look.bind fun t =>
      if separates t.kind then drop.bind fun _ => (statements expr close k).bind K
      else if t.kind = close then K []
      else if t.kind = .eof then .reject [.token close]
      else (expr 0).bind fun first =>
        behindStatement expr close k fun rest => K (first :: rest) := by
  simp only [statements, behindStatement, bind_eq_bind, pure_eq_done, bind_bind, ite_bind,
    done_bind, reject_bind]

section Statements

variable (hE : F.Parts ω expr b A v)

include hE

theorem ahead_statements {K : List Expression → Parse ω} {k : Nat}
    (hK : ∀ es, Closes close (K es)) (u : Token) (a : Reply)
    (h : ((statements expr close (k + 1)).bind K).Faces u a) : Ahead close v v u.kind a := by
  rw [statements_bind] at h
  change (if separates u.kind then drop.bind fun _ => (statements expr close k).bind K
    else if u.kind = close then K []
    else if u.kind = .eof then .reject [.token close]
    else (expr 0).bind fun first =>
      behindStatement expr close k fun rest => K (first :: rest)).Faces u a at h
  split at h
  · rename_i hseparates
    rw [show a = .taken from h]
    exact .separator hseparates
  · rename_i hseparates
    split at h
    · rename_i hclose
      exact (hK []).ahead hclose h
    · rename_i hclose
      split at h
      · rename_i hend
        rw [show a = .refused [.token close] from h, hend]
        exact .unclosed fun he => hclose (hend.trans he.symm)
      · rename_i hend
        cases hstarts : startsExpression u.kind with
        | true =>
            refine .starts hstarts ?_
            rcases hE.opening.decides 0 _ u a h with ⟨-, h⟩ | ⟨hA, rfl⟩
            · exact h.imp_right Or.inl
            · by_cases hA' : A u.kind
              · exact Or.inr (Or.inr ⟨hA hA', hA hA'⟩)
              · have hdeep := hE.opening.deep hA' hstarts
                exact Or.inr (Or.inr ⟨hdeep, hdeep⟩)
        | false =>
            rcases hE.opening.decides 0 _ u a h with ⟨hA, -⟩ | ⟨-, rfl⟩
            · rw [hE.opening.starts hA] at hstarts
              cases hstarts
            · exact .other (by simpa using hseparates) hclose hend hstarts

theorem ahead_behindStatement {K : List Expression → Parse ω} {k : Nat}
    (hK : ∀ es, Closes close (K es)) (u : Token) (a : Reply)
    (h : (behindStatement expr close (k + 1) K).Faces u a) :
    Ahead close v (.refused (afterStatement close)) u.kind a := by
  change (if separates u.kind || u.kind == .eof || u.kind == close || startsExpression u.kind then
    (statements expr close (k + 1)).bind K else .reject (afterStatement close)).Faces u a at h
  split at h
  · rename_i hc
    generalize hkind : u.kind = kind at hc
    have hahead := ahead_statements hE hK u a h
    rw [hkind] at hahead
    cases hahead with
    | separator hk => exact .separator hk
    | closed hk => exact .closed hk
    | ended hk => exact .ended hk
    | unclosed hk => exact .unclosed hk
    | starts hk ho => exact .starts hk ho
    | other hseparates hclose hend hstarts => simp [hseparates, hclose, hend, hstarts] at hc
  · rename_i hc
    rw [show a = .refused (afterStatement close) from h]
    simp only [Bool.or_eq_true, beq_iff_eq, not_or, Bool.not_eq_true] at hc
    exact .other hc.1.1.1 hc.1.2 hc.1.1.2 hc.2

theorem suits_opening : Suits close v v := by
  rcases hE.opening.shallow_or_deep with ⟨-, rfl⟩ | ⟨-, rfl⟩
  · exact Or.inr (Or.inl ⟨by simp, rfl⟩)
  · exact Or.inl rfl

theorem goes_statements (hclose : close = .eof ∨ close = .rbrace)
    {K K' : List Expression → Parse ω} {k : Nat} (hb : n ≤ b) (hk : n ≤ k)
    (hcloses : ∀ es, Closes close (K es) ∧ Closes close (K' es))
    (hK : ∀ es es' m prev s r u v, m ≤ n → F.At ⟨o, false⟩ ls prev m s r → s.front = .ok u →
      r.front = .ok v → Like u v → u.kind = close → F.Follows (K es) (K' es') s r) :
    F.Goes ⟨o, false⟩ ls n ((statements expr close k).bind K)
      ((statements expr close k).bind K') := by
  induction k generalizing n K K' with
  | zero =>
      obtain rfl := Nat.le_zero.mp hk
      exact Goes.zero
  | succ k ih =>
      have hahead (u a h) := ahead_statements hE (k := k) (fun es => (hcloses es).1) u a h
      have hahead' (u a h) := ahead_statements hE (k := k) (fun es => (hcloses es).2) u a h
      rw [statements_bind] at hahead hahead' ⊢
      rw [statements_bind]
      refine Goes.of_look (fun _ _ => lawful_of_ahead hahead hahead' hclose (suits_opening hE))
        fun m prev s r u v hm hat hu hv huv hne hbefore => ?_
      obtain ⟨m, rfl⟩ := hat.exists_succ
      rw [huv.kind]
      split
      · rename_i hseparates
        refine hat.drop hu hne fun m' prev' hm' hat' => ?_
        rw [(step_separator hseparates).1] at hat'
        refine (ih (n := m) (by omega) (by omega) hcloses fun es es' m₁ prev s r u v h₁ =>
          hK es es' m₁ prev s r u v (by omega)).follows m' prev' _ _ (by omega) hat'
      · split
        · rename_i hu'
          exact hK _ _ _ prev s r u v hm hat hu hv huv hu'
        · refine hE.follows 0 _ _ o ls prev m s r hat (by omega) (fun h => absurd hbefore h)
            fun first first' => ?_
          have hrest : F.Goes ⟨o, false⟩ ls m
              ((statements expr close k).bind fun rest => K (first :: rest))
              ((statements expr close k).bind fun rest => K' (first' :: rest)) :=
            ih (by omega) (by omega) (fun es => ⟨(hcloses _).1, (hcloses _).2⟩)
              fun es es' m₁ prev s r u v h₁ => hK _ _ m₁ prev s r u v (by omega)
          cases k with
          | zero =>
              obtain rfl : m = 0 := by omega
              exact Goes.zero
          | succ k =>
              refine Goes.of_look (fun _ _ => ?_) fun m₁ prev s r u v hm₁ hat hu hv huv _ hb' => ?_
              · exact lawful_of_ahead (ahead_behindStatement hE fun es => (hcloses _).1)
                  (ahead_behindStatement hE fun es => (hcloses _).2) hclose (Or.inr (Or.inr rfl))
              · rw [huv.kind]
                split
                · exact hrest.follows m₁ prev s r hm₁ hat
                · exact hb'.passes_reject.follows

end Statements

/-! ## Headers, bodies and braces -/

section Forms

variable (hE : F.Parts ω expr b A v)

theorem parenthesized_bind (expr : ExprParse) (K : Expression → Parse ω) :
    (parenthesized expr).bind K = (demand .lparen).bind fun _ => (opened .free).bind fun _ =>
      (expr 0).bind fun e => (demand .rparen).bind fun _ => closed.bind fun _ => K e := by
  simp only [parenthesized, bind_eq_bind, pure_eq_done, bind_bind, done_bind]

theorem body_bind (expr : ExprParse) (K : Expression → Parse ω) :
    (body expr).bind K = dropLines.bind fun _ => (expr 0).bind K := by
  simp only [body, bind_eq_bind, bind_bind]

theorem block_bind (expr : ExprParse) (b : Nat) (K : Operand → Parse ω) :
    (block expr b).bind K = (demand .lbrace).bind fun brace => (opened .lined).bind fun _ =>
      (statements expr .rbrace b).bind fun es => (demand .rbrace).bind fun close =>
        closed.bind fun _ => K (.block brace.loc es close.loc) := by
  simp only [block, bind_eq_bind, pure_eq_done, bind_bind, done_bind]

include hE

theorem follows_parenthesized {header : Bool} (h : F.At ⟨o, header⟩ ls prev n s r) (hb : n ≤ b)
    (hlines : ¬ F.Before s → ls.head? = some .free ∨ header = true ∨ F.old.kind ≠ .newline)
    {K K' : Expression → Parse ω}
    (hK : ∀ e e' m prev s r, m < n → F.At ⟨o, false⟩ ls prev m s r → F.Follows (K e) (K' e') s r) :
    F.Follows ((parenthesized expr).bind K) ((parenthesized expr).bind K') s r := by
  rw [parenthesized_bind, parenthesized_bind]
  refine h.demand rfl hlines fun m u v hm _ hat => hat.opened fun hin => ?_
  have hinside : F.Goes ⟨parenOf header :: o, false⟩ (.free :: ls) m
      ((expr 0).bind fun e => (demand .rparen).bind fun _ => closed.bind fun _ => K e)
      ((expr 0).bind fun e => (demand .rparen).bind fun _ => closed.bind fun _ => K' e) := by
    refine hE.goes rfl (by omega) fun e e' => ?_
    refine goes_demand rfl rfl fun m' u v s r hm' _ hat => hat.closed fun hout => ?_
    exact hK e e' m' _ _ _ (by omega) hout
  exact hinside.follows m _ _ _ (Nat.le_refl m) hin

/-- An expression behind line feeds does not begin with one. -/
theorem tracks_behind (i : Nat) (hb : n ≤ b) {K K' : Expression → Parse ω}
    (hK : ∀ e e', F.Goes ⟨o, false⟩ ls (n - 1) (K e) (K' e')) :
    F.Tracks ⟨o, false⟩ ls n (dropLines.bind fun _ => (expr i).bind K)
      (dropLines.bind fun _ => (expr i).bind K') := by
  intro m prev s r hm hat
  refine hat.dropLines fun hat' hline => ?_
  obtain ⟨m, rfl⟩ := hat.exists_succ
  exact hE.follows i K K' o ls prev m _ _ hat' (by omega) (fun h => Or.inr (hline h)) fun e e' =>
    (hK e e').mono (by omega)

theorem tracks_body (hb : n ≤ b) {K K' : Expression → Parse ω}
    (hK : ∀ e e', F.Goes ⟨o, false⟩ ls n (K e) (K' e')) :
    F.Tracks ⟨o, false⟩ ls n ((body expr).bind K) ((body expr).bind K') := by
  rw [body_bind, body_bind]
  exact tracks_behind hE 0 hb fun e e' => (hK e e').mono (Nat.sub_le n 1)

theorem follows_block {u w : Token} (h : F.At ⟨o, false⟩ ls prev n s r) (hu : s.front = .ok u)
    (hw : r.front = .ok w) (huw : Like u w) (hk : u.kind = .lbrace) (hb : n ≤ b)
    {K K' : Operand → Parse ω}
    (hK : ∀ x x' m prev s r, m < n → F.At ⟨o, false⟩ ls prev m s r → F.Follows (K x) (K' x') s r) :
    F.Follows ((block expr b).bind K) ((block expr b).bind K') s r := by
  rw [block_bind, block_bind]
  refine h.demand_again hu hw huw hk (by simp) (by simp) fun m u v hm _ hat => hat.opened
    fun hin => ?_
  have hcloses (loc : Location) (K : Operand → Parse ω) (es : List Expression) :
      Closes .rbrace ((demand .rbrace).bind fun close => closed.bind fun _ =>
        K (.block loc es close.loc)) := takes_demand _ _
  refine Goes.follows (goes_statements hE (Or.inr rfl) (n := m) (by omega) (by omega)
    (fun es => ⟨hcloses _ K es, hcloses _ K' es⟩) ?_) m _ _ _ (Nat.le_refl m) hin
  intro es es' m' prev s r u v hm' hat hu hv huv hclose
  refine hat.demand_again hu hv huv hclose (by simp) (by simp) fun m'' u v hm'' _ hat => hat.closed
    fun hout => ?_
  exact hK _ _ m'' _ _ _ (by omega) hout

/-! ## Control forms -/

omit hE in
theorem function_bind (expr : ExprParse) (b : Nat) (K : Operand → Parse ω) :
    (function expr b).bind K =
      (demand .functionWord).bind fun word => (demand .lparen).bind fun _ =>
        (opened .free).bind fun _ => (formals expr b).bind fun ps => (demand .rparen).bind fun _ =>
          closed.bind fun _ => (body expr).bind fun e => K (.function word.loc ps e) := by
  simp only [function, bind_eq_bind, pure_eq_done, bind_bind, done_bind]

omit hE in
theorem forLoop_bind (expr : ExprParse) (K : Operand → Parse ω) :
    (forLoop expr).bind K = (demand .forWord).bind fun word => (demand .lparen).bind fun _ =>
      (opened .free).bind fun _ => name.bind fun i => (demand .inWord).bind fun _ =>
        (expr 0).bind fun q => (demand .rparen).bind fun _ => closed.bind fun _ =>
          (body expr).bind fun e => K (.forLoop word.loc i q e) := by
  simp only [forLoop, bind_eq_bind, pure_eq_done, bind_bind, done_bind]

omit hE in
theorem whileLoop_bind (expr : ExprParse) (K : Operand → Parse ω) :
    (whileLoop expr).bind K =
      (demand .whileWord).bind fun word => (parenthesized expr).bind fun c =>
        (body expr).bind fun e => K (.whileLoop word.loc c e) := by
  simp only [whileLoop, bind_eq_bind, pure_eq_done, bind_bind, done_bind]

omit hE in
theorem repeatLoop_bind (expr : ExprParse) (K : Operand → Parse ω) :
    (repeatLoop expr).bind K = (demand .repeatWord).bind fun word =>
      (body expr).bind fun e => K (.repeatLoop word.loc e) := by
  simp only [repeatLoop, bind_eq_bind, pure_eq_done, bind_bind, done_bind]

omit hE in
theorem paren_bind (expr : ExprParse) (K : Operand → Parse ω) :
    (paren expr).bind K = (parenthesized expr).bind fun e => K (.paren e) := by
  simp only [paren, bind_eq_bind, pure_eq_done, bind_bind, done_bind]

/-- What stands behind the first branch of an `if`. -/
def behindBranch (expr : ExprParse) (loc : Location) (c e : Expression) (K : Operand → Parse ω) :
    Parse ω :=
  elseFollows.bind fun b =>
    if b then
      dropLines.bind fun _ => (demand .elseWord).bind fun _ =>
        (body expr).bind fun x => K (.ifElse loc c e x)
    else K (.ifThen loc c e)

omit hE in
theorem ifForm_bind (expr : ExprParse) (K : Operand → Parse ω) :
    (ifForm expr).bind K = (demand .ifWord).bind fun word => (parenthesized expr).bind fun c =>
      (body expr).bind fun e => behindBranch expr word.loc c e K := by
  simp only [ifForm, behindBranch, bind_eq_bind, pure_eq_done, bind_bind, ite_bind, done_bind]

omit hE in
/-- An `else` is taken, and so are the line feeds before it. -/
theorem faces_else {K : Token → Parse ω} {u : Token} {a : Reply}
    (hu : u.kind = .newline ∨ u.kind = .elseWord)
    (h : (dropLines.bind fun _ => (demand .elseWord).bind K).Faces u a) :
    a = .taken ∨ a = .broken := by
  change (if u.kind = .newline then a = .taken ∨ a = .broken
    else ((demand .elseWord).bind K).Faces u a) at h
  split at h
  · exact h
  · rename_i hn
    exact Or.inl (takes_demand .elseWord K u a (hu.resolve_left hn) h)

omit hE in
/-- Behind line feeds the next token that is none is in front. -/
theorem front_behind_lines {t : Token} (ht : s.beyond = .ok t) :
    s.afterLines.front = .ok t := by
  have hshown : s.afterLines.shown.tokens = s.afterLines.tokens := by
    rw [Tape.shown_tokens, Tape.afterLines_tokens, List.dropWhile_idempotent, ite_self]
  rw [Tape.beyond] at ht
  rw [Tape.front, Tape.head, hshown, Tape.shown_ending]
  exact ht

omit hE in
/-- Where the sources part at an `else`, it is taken. -/
theorem passes_else {K : Token → Parse ω} {t : Token} (ht : s.beyond = .ok t)
    (hk : t.kind = .elseWord) (hb : ¬ F.Before s.afterLines) :
    F.Passes (dropLines.bind fun _ => (demand .elseWord).bind K) s := by
  have hfront := front_behind_lines ht
  have hpass : F.Passes (take K) s.afterLines := passes_take hfront (by simp [hk]) hb
  intro x s' hx
  refine hpass x s' ?_
  simp only [dropLines, Parse.bind, demand, bind_eq_bind, look, refusal, ht, Tape.ahead, hfront,
    hk, if_true, accept] at hx
  rwa [refusal, hfront]

omit hE in
/-- An `else` that goes on with a form stands behind line feeds in both sources. -/
theorem follows_else {f g : Token → Parse ω} {t : Token} (h : F.At ⟨o, false⟩ ls prev n s r)
    (ht : s.beyond = .ok t) (hk : t.kind = .elseWord)
    (hf : ∀ m u v s r, n = m + 1 → F.At ⟨o, false⟩ ls (some (u, v)) m s r →
      F.Follows (f u) (g v) s r) :
    F.Follows (dropLines.bind fun _ => (demand .elseWord).bind f)
      (dropLines.bind fun _ => (demand .elseWord).bind g) s r := by
  by_cases hb : F.Before s.afterLines
  · refine h.dropLines fun hat _ => ?_
    cases hat.fronts with
    | parted _ hb' => exact absurd hb hb'
    | @common u v hu hv huv =>
        have hu' : u = t := Except.ok.inj (hu.symm.trans (front_behind_lines ht))
        refine hat.demand_again hu hv huv (hu' ▸ hk) (by simp) (by simp) fun m u v hm _ hat => ?_
        exact hf m u v _ _ hm hat
  · exact (passes_else ht hk hb).follows

include hE in
theorem goes_behindBranch {loc loc' : Location} {c c' e e' : Expression} {K K' : Operand → Parse ω}
    (hb : n ≤ b) (hK : ∀ x x', F.Goes ⟨o, false⟩ ls n (K x) (K' x')) :
    F.Goes ⟨o, false⟩ ls n (behindBranch expr loc c e K) (behindBranch expr loc' c' e' K') := by
  refine ⟨fun hpos hscope => ?_, fun m prev s r hm hat => ?_⟩
  · refine lawful_elseFollows (by rw [hscope]) (fun u a hu h => faces_else hu h)
      (fun u a hu h => faces_else hu h) ?_
    exact (hK _ _).lawful hpos hscope
  · refine hat.elseFollows rfl (fun t ht hk => ?_) ((hK _ _).follows m prev s r hm hat)
      fun ht hk hs => passes_else ht hk ?_
    · refine follows_else hat ht hk fun m' u v s r hm' hat => ?_
      exact tracks_body hE (n := n) (by omega) (fun x x' => hK _ _) m' _ _ _ (by omega) hat
    · have hle := s.afterLines.shown_suffix.length_le
      rw [hs] at hle
      exact Nat.not_lt.mpr hle

section Operand

variable {u w : Token} {K K' : Operand → Parse ω} (h : F.At ⟨o, false⟩ ls prev (n + 1) s r)
  (hu : s.front = .ok u) (hw : r.front = .ok w) (huw : Like u w) (hb : n + 1 ≤ b)
  (hK : ∀ x x', F.Goes ⟨o, false⟩ ls n (K x) (K' x'))

include h hb hK

theorem follows_paren (hbefore : F.Before s) :
    F.Follows ((paren expr).bind K) ((paren expr).bind K') s r := by
  rw [paren_bind, paren_bind]
  refine follows_parenthesized hE h hb (fun h => absurd hbefore h) fun e e' m prev s r hm hat => ?_
  exact (hK _ _).follows m prev s r (by omega) hat

include hu hw huw

theorem follows_function (hk : u.kind = .functionWord) :
    F.Follows ((function expr b).bind K) ((function expr b).bind K') s r := by
  rw [function_bind, function_bind]
  refine h.demand_again hu hw huw hk (by simp) (by simp) fun m _ _ hm _ hat => ?_
  refine hat.demand rfl (fun _ => Or.inr (Or.inl rfl)) fun m' _ _ hm' _ hat =>
    hat.opened fun hin => ?_
  refine Goes.follows (goes_formals hE rfl (n := m') (by omega) (by omega) (fun ps ps' => ?_)
    fun ps => ⟨takes_demand _ _, takes_demand _ _⟩) m' _ _ _ (Nat.le_refl m') hin
  refine goes_demand rfl rfl fun k _ _ s r hk _ hat => hat.closed fun hout => ?_
  exact tracks_body hE (n := n) (by omega) (fun e e' => hK _ _) k _ _ _ (by omega) hout

theorem follows_ifForm (hk : u.kind = .ifWord) :
    F.Follows ((ifForm expr).bind K) ((ifForm expr).bind K') s r := by
  rw [ifForm_bind, ifForm_bind]
  refine h.demand_again hu hw huw hk (by simp) (by simp) fun m _ _ hm _ hat => ?_
  refine follows_parenthesized hE hat (by omega) (fun _ => Or.inr (Or.inl rfl))
    fun c c' m' prev s r hm' hat => ?_
  exact tracks_body hE (n := n) (by omega)
    (fun e e' => goes_behindBranch hE (by omega) hK) m' _ _ _ (by omega) hat

theorem follows_forLoop (hk : u.kind = .forWord) :
    F.Follows ((forLoop expr).bind K) ((forLoop expr).bind K') s r := by
  rw [forLoop_bind, forLoop_bind]
  refine h.demand_again hu hw huw hk (by simp) (by simp) fun m _ _ hm _ hat => ?_
  refine hat.demand rfl (fun _ => Or.inr (Or.inl rfl)) fun m' _ _ hm' _ hat =>
    hat.opened fun hin => ?_
  refine Goes.follows (goes_name rfl (n := m') fun i i' => ?_) m' _ _ _ (Nat.le_succ m') hin
  refine goes_demand rfl rfl fun k _ _ s r hk _ hat => ?_
  refine (hE.goes rfl (n := k) (by omega) fun q q' => ?_).follows k _ s r (Nat.le_refl k) hat
  refine goes_demand rfl rfl fun k' _ _ s r hk' _ hat => hat.closed fun hout => ?_
  exact tracks_body hE (n := n) (by omega) (fun e e' => hK _ _) k' _ _ _ (by omega) hout

theorem follows_whileLoop (hk : u.kind = .whileWord) :
    F.Follows ((whileLoop expr).bind K) ((whileLoop expr).bind K') s r := by
  rw [whileLoop_bind, whileLoop_bind]
  refine h.demand_again hu hw huw hk (by simp) (by simp) fun m _ _ hm _ hat => ?_
  refine follows_parenthesized hE hat (by omega) (fun _ => Or.inr (Or.inl rfl))
    fun c c' m' prev s r hm' hat => ?_
  exact tracks_body hE (n := n) (by omega) (fun e e' => hK _ _) m' _ _ _ (by omega) hat

theorem follows_repeatLoop (hk : u.kind = .repeatWord) :
    F.Follows ((repeatLoop expr).bind K) ((repeatLoop expr).bind K') s r := by
  rw [repeatLoop_bind, repeatLoop_bind]
  refine h.demand_again hu hw huw hk (by simp) (by simp) fun m _ _ hm _ hat => ?_
  exact tracks_body hE (n := n) (by omega) (fun e e' => hK _ _) m _ _ _ (by omega) hat

end Operand

end Forms

end Grammar

end RSource
