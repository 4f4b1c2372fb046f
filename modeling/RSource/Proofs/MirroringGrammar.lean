import RSource.Proofs.Coverage
import RSource.Proofs.Mirroring

/-!
# Layouts and open brackets in the grammar

* `keeps_argument`, `keeps_statements`, `keeps_operand` and the like — each parse of the grammar
  asks only where the layouts mirror the brackets, and ends in those in which it started, given the
  same of the parse of an expression.
* `minds_group`, `minds_leading` — so does what starts with a token that has been looked at.
* `keeps_expression` — **so does an expression**, by induction on the levels of nesting.
-/

namespace RSource

/-- The bracket that stands in front of a call or subscript. -/
def Brackets.bracket : Brackets → Bracket
  | call => .paren
  | index => .index
  | element => .element

theorem Brackets.layout_bracket (kind : Brackets) : kind.bracket.layout = .free := by
  cases kind <;> rfl

theorem Bracket.behind_opening {k : TokenKind} {kind : Brackets} {o : List Bracket}
    (h : Brackets.ofKind? k = some kind) : behind k o = some (kind.bracket :: o) := by
  rw [Grammar.opening_of_brackets h]
  cases kind <;> rfl

namespace Grammar

open Parse

section Parts

variable {s₀ s : Feed} {o : List Bracket} {t : Token} {expr : ExprParse}
  {bound : Nat}

theorem keeps_name : Keeps s₀ name := by
  intro o s hs
  refine minds_look hs fun t ht => ?_
  split
  · rename_i hk
    have hname : Bracket.behind t.kind o = some o := by
      rcases hk with hk | hk <;> rw [hk] <;> rfl
    exact minds_drop hs ht hname fun _ _ hs' => minds_done hs'
  · exact minds_reject hs

theorem keeps_elseFollows : Keeps s₀ elseFollows := by
  refine keeps_bracketed.bind fun nested => ?_
  split
  · exact keeps_kindBeyondLines.map
  · exact keeps_look fun _ => keeps_done _

/-- The tokens that close a call or subscript are taken, and its brackets are left. -/
theorem minds_closing {kind : Brackets} {g : Group} (hs : s.Mirrors s₀ (kind.bracket :: o)) :
    ((closing kind).bind fun _ => closed.bind fun _ => done g).Minds s₀ o s := by
  rw [closing, bind_eq_bind, bind_bind]
  refine minds_demand hs fun t s₁ ht hs₁ => ?_
  cases kind with
  | call | index => exact minds_closed hs hs₁ (by rw [ht]; rfl) fun _ => minds_done
  | element =>
    have hfirst : Bracket.behind t.kind (.element :: o) = some (.half :: o) := by rw [ht]; rfl
    -- Between the two closing brackets the subscript is still open.
    have hhalf : s₁.Mirrors s₀ (.half :: o) :=
      ⟨hs.stands.take hs₁ hfirst, (Feed.take_ok hs₁).2.1.trans hs.layouts⟩
    rw [if_pos rfl, secondBracket, bind_eq_bind, bind_bind]
    refine minds_look hhalf fun u hu => ?_
    split
    · rename_i hk
      have hsecond : Bracket.behind u.kind (.half :: o) = some o := by rw [hk.1]; rfl
      refine minds_take hhalf hu fun s₂ hs₂ => ?_
      exact minds_closed hhalf hs₂ hsecond fun _ => minds_done
    · exact minds_reject hhalf

variable (hE : ∀ m, Keeps s₀ (expr m))

include hE

/-! ## Lists in brackets -/

theorem keeps_argument (close : TokenKind) : Keeps s₀ (argument expr close) := by
  have hvalue : Keeps s₀ ((expr 0).bind fun e => done (Argument.value e)) := (hE 0).map
  intro o s hs
  refine minds_look hs fun t ht => ?_
  split
  · exact hvalue o s hs
  · rename_i n hn
    refine minds_lookSecond hs fun u hu => ?_
    split
    · rename_i hk
      -- The name and the equals sign have been looked at, and neither is a bracket.
      obtain ⟨hname, hne⟩ := Bracket.behind_argName (o := o) hn
      refine minds_drop hs ht hname fun s₁ hs₁ hm₁ => ?_
      have hu₁ : s₁.front = .ok u := (Feed.front_of_take hs₁ hne).trans hu
      have hequals : Bracket.behind u.kind o = some o := by rw [hk]; rfl
      refine minds_drop hm₁ hu₁ hequals fun s₂ _ hm₂ => ?_
      refine minds_look hm₂ fun v _ => ?_
      split
      · exact minds_done hm₂
      · have hnamed : Keeps s₀ ((expr 0).bind fun e => done (Argument.named n e)) := (hE 0).map
        exact hnamed o s₂ hm₂
    · exact hvalue o s hs

theorem keeps_slot (close : TokenKind) : Keeps s₀ (slot expr close) := by
  refine keeps_look fun t => ?_
  split
  · exact keeps_done _
  · exact keeps_argument hE close

theorem keeps_slots (close : TokenKind) (n : Nat) : Keeps s₀ (slots expr close n) := by
  induction n with
  | zero => exact keeps_reject
  | succ n ih =>
    refine (keeps_slot hE close).bind fun first o s hs => ?_
    refine minds_look hs fun t ht => ?_
    split
    · rename_i hk
      have hcomma : Bracket.behind t.kind o = some o := by rw [hk]; rfl
      refine minds_drop hs ht hcomma fun s₁ _ hs₁ => ?_
      refine minds_look hs₁ fun u _ => ?_
      split
      · exact minds_done hs₁
      · exact ih.map o s₁ hs₁
    · split
      · exact minds_done hs
      · exact minds_reject hs

theorem keeps_arguments (close : TokenKind) : Keeps s₀ (arguments expr close bound) := by
  refine keeps_look fun t => ?_
  split
  · exact keeps_done _
  · exact keeps_slots hE close bound

/-- A call or subscript whose opening bracket is next. -/
theorem minds_group {kind : Brackets} (hs : s.Mirrors s₀ o) (ht : s.front = .ok t)
    (hk : Brackets.ofKind? t.kind = some kind) : (group expr bound kind).Minds s₀ o s := by
  refine minds_take hs ht fun s₁ hs₁ => ?_
  have hopening : Bracket.behind t.kind o = some (kind.bracket :: o) := Bracket.behind_opening hk
  have harguments : Keeps s₀ (arguments expr kind.closing bound) := keeps_arguments hE kind.closing
  have hinside : ∀ s₂ : Feed, s₂.Mirrors s₀ (kind.bracket :: o) →
      (look.bind fun u => (arguments expr kind.closing bound).bind fun as =>
        (closing kind).bind fun _ => closed.bind fun _ => done (Group.mk u.loc kind as)).Minds
          s₀ o s₂ := by
    intro s₂ hs₂
    refine minds_look hs₂ fun u _ => ?_
    refine (harguments _ s₂ hs₂).bind fun as s₃ hs₃ => ?_
    exact minds_closing hs₃
  have hopened := minds_opened (f := fun _ => _) hs hs₁ hopening hinside
  rw [Brackets.layout_bracket] at hopened
  exact hopened

theorem keeps_groups (n : Nat) : Keeps s₀ (groups expr bound n) := by
  induction n with
  | zero => exact keeps_reject
  | succ n ih =>
    intro o s hs
    refine minds_look hs fun t ht => ?_
    split
    · exact minds_done hs
    · rename_i hk
      exact (minds_group hE hs ht hk).bind fun g s₁ hs₁ => ih.map o s₁ hs₁

theorem keeps_formal : Keeps s₀ (formal expr) := by
  refine keeps_name.bind fun i o s hs => ?_
  refine minds_look hs fun t ht => ?_
  split
  · rename_i hk
    have hequals : Bracket.behind t.kind o = some o := by rw [hk]; rfl
    exact minds_drop hs ht hequals fun s₁ _ hs₁ => (hE 0).map o s₁ hs₁
  · exact minds_done hs

theorem keeps_someFormals (n : Nat) : Keeps s₀ (someFormals expr n) := by
  induction n with
  | zero => exact keeps_reject
  | succ n ih =>
    refine (keeps_formal hE).bind fun first o s hs => ?_
    refine minds_look hs fun t ht => ?_
    split
    · rename_i hk
      have hcomma : Bracket.behind t.kind o = some o := by rw [hk]; rfl
      exact minds_drop hs ht hcomma fun s₁ _ hs₁ => ih.map o s₁ hs₁
    · split
      · exact minds_done hs
      · exact minds_reject hs

theorem keeps_formals : Keeps s₀ (formals expr bound) := by
  refine keeps_look fun t => ?_
  split
  · exact keeps_done _
  · exact keeps_someFormals hE bound

/-! ## Statements and operands -/

theorem keeps_statements (close : TokenKind) (n : Nat) : Keeps s₀ (statements expr close n) := by
  induction n with
  | zero => exact keeps_reject
  | succ n ih =>
    intro o s hs
    refine minds_look hs fun t ht => ?_
    split
    · rename_i hk
      exact minds_drop hs ht (Bracket.behind_separates hk) fun s₁ _ hs₁ => ih o s₁ hs₁
    · split
      · exact minds_done hs
      · split
        · exact minds_reject hs
        · refine (hE 0 o s hs).bind fun first s₁ hs₁ => ?_
          refine minds_look hs₁ fun u _ => ?_
          split
          · exact ih.map o s₁ hs₁
          · exact minds_reject hs₁

theorem keeps_parenthesized : Keeps s₀ (parenthesized expr) :=
  keeps_enclosed (b := .paren) (fun _ => rfl) (fun _ => rfl) (fun _ => hE 0)
    fun _ _ _ => keeps_done _

theorem keeps_body : Keeps s₀ (body expr) := keeps_dropLines.bind fun _ => hE 0

theorem keeps_block : Keeps s₀ (block expr bound) :=
  keeps_enclosed (b := .brace) (fun _ => rfl) (fun _ => rfl)
    (fun _ => keeps_statements hE .rbrace bound) fun _ _ _ => keeps_done _

theorem keeps_function : Keeps s₀ (function expr bound) := by
  refine (keeps_demand fun _ => rfl).bind fun word => ?_
  refine keeps_enclosed (b := .paren) (fun _ => rfl) (fun _ => rfl) (fun _ => keeps_formals hE) ?_
  intro _ fs _
  exact (keeps_body hE).map

theorem keeps_ifForm : Keeps s₀ (ifForm expr) := by
  refine (keeps_demand fun _ => rfl).bind fun word => ?_
  refine (keeps_parenthesized hE).bind fun cond => ?_
  refine (keeps_body hE).bind fun thenBranch => ?_
  refine keeps_elseFollows.bind fun follows => ?_
  split
  · refine keeps_dropLines.bind fun _ => ?_
    refine (keeps_demand fun _ => rfl).bind fun _ => ?_
    exact (keeps_body hE).map
  · exact keeps_done _

theorem keeps_forLoop : Keeps s₀ (forLoop expr) := by
  refine (keeps_demand fun _ => rfl).bind fun word o s hs => ?_
  refine minds_demand hs fun t s₁ ht hs₁ => ?_
  have hopening : Bracket.behind t.kind o = some (.paren :: o) := by rw [ht]; rfl
  refine minds_opened (b := .paren) hs hs₁ hopening fun s₂ hs₂ => ?_
  -- A name and a sequence stand in the parentheses, and `in` between them.
  refine (keeps_name _ s₂ hs₂).bind fun var s₃ hs₃ => ?_
  refine ((keeps_demand fun _ => rfl) _ s₃ hs₃).bind fun _ s₄ hs₄ => ?_
  refine (hE 0 _ s₄ hs₄).bind fun seq s₅ hs₅ => ?_
  refine minds_demand hs₅ fun u s₆ hu hs₆ => ?_
  have hclosing : Bracket.behind u.kind (.paren :: o) = some o := by rw [hu]; rfl
  refine minds_closed hs₅ hs₆ hclosing fun s₇ hs₇ => ?_
  exact (keeps_body hE).map o s₇ hs₇

theorem keeps_whileLoop : Keeps s₀ (whileLoop expr) := by
  refine (keeps_demand fun _ => rfl).bind fun word => ?_
  refine (keeps_parenthesized hE).bind fun cond => ?_
  exact (keeps_body hE).map

theorem keeps_repeatLoop : Keeps s₀ (repeatLoop expr) := by
  refine (keeps_demand fun _ => rfl).bind fun word => ?_
  exact (keeps_body hE).map

theorem keeps_operand : Keeps s₀ (operand expr bound) := by
  intro o s hs
  refine minds_look hs fun t ht => ?_
  split
  · rename_i c hc
    have hconstant : Bracket.behind t.kind o = some o := by
      unfold Constant.ofToken? at hc
      split at hc
      · cases hc
      · exact Bracket.behind_constant ‹_›
    exact minds_drop hs ht hconstant fun _ _ hs₁ => minds_done hs₁
  · split
    case h_5 => exact (keeps_parenthesized hE).map o s hs
    case h_6 => exact keeps_block hE o s hs
    case h_7 => exact keeps_function hE o s hs
    case h_8 => exact keeps_ifForm hE o s hs
    case h_9 => exact keeps_forLoop hE o s hs
    case h_10 => exact keeps_whileLoop hE o s hs
    case h_11 => exact keeps_repeatLoop hE o s hs
    case h_12 => exact minds_reject hs
    all_goals
      rename_i hk
      have hname : Bracket.behind t.kind o = some o := by rw [hk]; rfl
      exact minds_drop hs ht hname fun _ _ hs₁ => minds_done hs₁

theorem keeps_term : Keeps s₀ (term expr bound) := by
  refine (keeps_operand hE).bind fun operand => ?_
  exact (keeps_groups hE bound).map

/-! ## Operators -/

/-- What starts with a token that has been looked at. -/
theorem minds_leading (hs : s.Mirrors s₀ o) (ht : s.front = .ok t) :
    (leading expr bound t).Minds s₀ o s := by
  unfold leading
  split
  · rename_i op hop
    refine minds_drop hs ht (Bracket.behind_unary hop) fun s₁ _ hs₁ => ?_
    exact (keeps_dropLines.bind fun _ => (hE op.power).map) o s₁ hs₁
  · split
    · rename_i hk
      have hquestion : Bracket.behind t.kind o = some o := by rw [hk]; rfl
      refine minds_drop hs ht hquestion fun s₁ _ hs₁ => ?_
      exact (keeps_dropLines.bind fun _ => (hE Power.helpTarget).map) o s₁ hs₁
    · exact (keeps_term hE).map o s hs

theorem keeps_rightOperand (op : TokenKind) (power : Power) :
    Keeps s₀ (rightOperand expr bound op power) := by
  unfold rightOperand
  split
  · exact keeps_look fun _ => (keeps_operand hE).map
  · exact hE power.right

theorem keeps_operations (m : Nat) (loc : Location) (n : Nat) (lhs : Expression) :
    Keeps s₀ (operations expr bound m loc n lhs) := by
  induction n generalizing lhs with
  | zero => exact keeps_reject
  | succ n ih =>
    intro o s hs
    refine minds_look hs fun op ht => ?_
    split
    · exact ((keeps_groups hE bound).bind fun gs => ih _) o s hs
    · split
      · exact minds_done hs
      · rename_i power hpower
        split
        · exact minds_done hs
        · refine minds_drop hs ht (Bracket.behind_power hpower) fun s₁ _ hs₁ => ?_
          refine (keeps_dropLines.bind fun _ => ?_) o s₁ hs₁
          refine (keeps_rightOperand hE op.kind power).bind fun rhs => ?_
          split
          · exact keeps_reject
          · rename_i e _
            exact ih e

theorem keeps_level (m : Nat) : Keeps s₀ (level expr bound m) := by
  intro o s hs
  refine minds_look hs fun t ht => ?_
  refine (minds_leading hE hs ht).bind fun lhs s₁ hs₁ => ?_
  exact keeps_operations hE m t.loc bound lhs o s₁ hs₁

end Parts

/-- **An expression asks only where the layouts mirror the brackets.** -/
theorem keeps_expression (s₀ : Feed) (bound levels m : Nat) :
    Keeps s₀ (expression bound levels m) := by
  induction levels generalizing m with
  | zero => exact fun o _ hs => ⟨o, hs⟩
  | succ levels ih => exact keeps_level ih m

theorem keeps_program (s₀ : Feed) (bound : Nat) : Keeps s₀ (program bound) :=
  (keeps_statements (keeps_expression s₀ bound maxNesting) .eof bound).map

end Grammar

end RSource
