import RSource.Proofs.Counting
import RSource.Proofs.MirroringGrammar

/-!
# What parses restore

A parse that succeeds stands in the brackets in which it started and has as many expressions around
it.

* `Parse.Restores` — a parse that succeeds leaves the layouts as it found them.
* `BringsBack` — so does a parse of the grammar, and a counter of the expressions around it is found
  again as it was.
* `ParsesBringBack` — the parses of the grammar do.
* `layouts_mirror_brackets` — **the layouts of a program mirror its open brackets** wherever it asks
  for a token, and all parses bring back layouts and counter.
-/

namespace RSource

open Parse Grammar

namespace Parse

variable {α β : Type}

theorem run_bind_ok {p : Parse α} {f : α → Parse β} {s s' : Feed} {b : β}
    (h : (p.bind f).run s = .ok (b, s')) :
    ∃ a s₁, p.run s = .ok (a, s₁) ∧ (f a).run s₁ = .ok (b, s') := by
  rw [run_bind] at h
  split at h
  · cases h
  · exact ⟨_, _, ‹_›, h⟩

/-- Where the parse succeeds the layouts are those before it. -/
def Restores (p : Parse α) : Prop :=
  ∀ s a s', p.run s = .ok (a, s') → s'.layouts = s.layouts

theorem restores_of_keeps {p : Parse α} (h : ∀ s, Keeps s p) : p.Restores :=
  fun s _ _ hp => layouts_of_keeps (h s) hp

theorem Restores.bind {p : Parse α} {f : α → Parse β} (hp : p.Restores)
    (hf : ∀ a, (f a).Restores) : (p.bind f).Restores := by
  intro s b s' h
  obtain ⟨a, s₁, ha, hb⟩ := run_bind_ok h
  exact (hf a s₁ b s' hb).trans (hp s a s₁ ha)

theorem restores_reject {expected : List Continuation} :
    (reject expected : Parse α).Restores := restores_of_keeps fun _ => keeps_reject

theorem restores_done (a : α) : (done a).Restores := restores_of_keeps fun _ => keeps_done a

/-- Any token may be taken, a bracket too: layouts change by requests of their own. -/
theorem restores_take {f : Token → Parse α} (hf : ∀ t, (f t).Restores) :
    (Parse.take f).Restores := by
  intro s a s' h
  rw [run] at h
  split at h
  · cases h
  · rename_i ht
    exact (hf _ _ a s' h).trans (Feed.take_ok ht).2.1

theorem restores_drop : drop.Restores := restores_take fun _ => restores_done ()

theorem restores_look : look.Restores :=
  restores_of_keeps fun _ => keeps_look fun _ => keeps_done _

theorem restores_demand (kind : TokenKind) : (demand kind).Restores := by
  refine restores_look.bind fun t => ?_
  split
  · exact restores_take fun u => restores_done u
  · exact restores_reject

end Parse

namespace Grammar

theorem restores_closing (kind : Brackets) : (closing kind).Restores := by
  refine (restores_demand kind.closing).bind fun close => ?_
  split
  · refine restores_look.bind fun t => ?_
    split
    · exact restores_drop
    · exact restores_reject
  · exact restores_done ()

section Expressions

variable {expr : ExprParse} {bound : Nat} (hE : ∀ m s, Keeps s (expr m))

include hE

/-- The bracket that opens it may be any token: what it enters it leaves. -/
theorem restores_group (kind : Brackets) : (group expr bound kind).Restores := by
  intro s g s' h
  obtain ⟨_, s₁, hdrop, h⟩ := run_bind_ok h
  obtain ⟨_, s₂, hopened, h⟩ := run_bind_ok h
  obtain ⟨t, s₃, hlook, h⟩ := run_bind_ok h
  obtain ⟨as, s₄, harguments, h⟩ := run_bind_ok h
  obtain ⟨_, s₅, hclosing, h⟩ := run_bind_ok h
  obtain ⟨_, s₆, hclosed, h⟩ := run_bind_ok h
  cases h
  cases hopened
  cases hclosed
  have hinside : s₅.layouts = .free :: s₁.layouts := calc
    s₅.layouts = s₄.layouts := restores_closing kind _ _ _ hclosing
    _ = s₃.layouts :=
      restores_of_keeps (fun s => keeps_arguments (fun m => hE m s) kind.closing) _ _ _ harguments
    _ = (s₁.enter .free).layouts := restores_look _ _ _ hlook
  calc
    s₅.leave.layouts = s₅.layouts.tail := rfl
    _ = s₁.layouts := by rw [hinside]; rfl
    _ = s.layouts := restores_drop _ _ _ hdrop

theorem restores_leading (start : Token) : (leading expr bound start).Restores := by
  have hlines : dropLines.Restores := restores_of_keeps fun _ => keeps_dropLines
  have hexpr (m : Nat) : (expr m).Restores := restores_of_keeps (hE m)
  have hterm : (term expr bound).Restores :=
    restores_of_keeps fun s => keeps_term fun m => hE m s
  unfold leading
  split
  · refine restores_drop.bind fun _ => ?_
    refine hlines.bind fun _ => ?_
    exact (hexpr _).bind fun e => restores_done _
  · split
    · refine restores_drop.bind fun _ => ?_
      refine hlines.bind fun _ => ?_
      exact (hexpr _).bind fun e => restores_done _
    · exact hterm.bind fun t => restores_done _

end Expressions

end Grammar

/-- Where the parse succeeds the layouts are those before it. Whatever it comes to, a counter of the
expressions around it comes to what it was. -/
structure BringsBack (bound : Nat) {α : Type} (p : ExprParse → Parse α) : Prop where
  layouts : ∀ depth, (p (expressionAt bound depth)).Restores
  counter : ∀ depth s o depth', Counts bound p depth s o depth' ↔
    o = (p (expressionAt bound depth)).run s ∧ depth' = depth

section Sequences

variable {α : Type} {bound : Nat} {p : ExprParse → Parse α}

theorem bringsBack_of_restores (h : ∀ depth, (p (expressionAt bound depth)).Restores)
    (hp : ∀ depth, Counted bound depth p) : BringsBack bound p where
  layouts := h
  counter depth s o depth' := by
    refine ⟨Counts.run, ?_⟩
    rintro ⟨rfl, rfl⟩
    exact hp depth' s

theorem keeps_expressionAt (bound depth m : Nat) (s : Feed) :
    Keeps s (expressionAt bound depth m) := keeps_expression s bound (maxNesting - depth) m

/-- A parse that minds its brackets as long as expressions do, and counts as they do. -/
theorem bringsBack
    (h : ∀ (s : Feed) (expr : ExprParse), (∀ m, Keeps s (expr m)) → Keeps s (p expr))
    (hp : ∀ depth, Counted bound depth p) : BringsBack bound p := by
  refine bringsBack_of_restores (fun depth => ?_) hp
  have hkeeps (s : Feed) : Keeps s (p (expressionAt bound depth)) :=
    h s _ fun m => keeps_expressionAt bound depth m s
  exact restores_of_keeps hkeeps

end Sequences

/-- The parses of the grammar bring back layouts and counter, those of all lists in it whatever
closes them. -/
structure ParsesBringBack (bound : Nat) : Prop where
  demand : ∀ kind, BringsBack bound fun _ => Parse.demand kind
  name : BringsBack bound fun _ => Grammar.name
  argument : ∀ close, BringsBack bound fun expr => Grammar.argument expr close
  arguments : ∀ close, BringsBack bound fun expr => Grammar.arguments expr close bound
  group : ∀ kind, BringsBack bound fun expr => Grammar.group expr bound kind
  groups : BringsBack bound fun expr => Grammar.groups expr bound bound
  formals : BringsBack bound fun expr => Grammar.formals expr bound
  parenthesized : BringsBack bound fun expr => Grammar.parenthesized expr
  block : BringsBack bound fun expr => Grammar.block expr bound
  function : BringsBack bound fun expr => Grammar.function expr bound
  ifForm : BringsBack bound fun expr => Grammar.ifForm expr
  forLoop : BringsBack bound fun expr => Grammar.forLoop expr
  whileLoop : BringsBack bound fun expr => Grammar.whileLoop expr
  repeatLoop : BringsBack bound fun expr => Grammar.repeatLoop expr
  operand : BringsBack bound fun expr => Grammar.operand expr bound
  term : BringsBack bound fun expr => Grammar.term expr bound
  leading : ∀ start, BringsBack bound fun expr => Grammar.leading expr bound start
  level : ∀ m, BringsBack bound fun expr => Grammar.level expr bound m
  expression : ∀ m, BringsBack bound fun expr => expr m
  statements : ∀ close, BringsBack bound fun expr => Grammar.statements expr close bound
  program : BringsBack bound fun expr =>
    (Grammar.statements expr .eof bound).bind fun es => Parse.done (Program.mk es)

theorem parsesBringBack (bound : Nat) : ParsesBringBack bound where
  demand kind := bringsBack_of_restores (fun _ => restores_demand kind) fun _ => counted_requests _
  name := bringsBack (fun _ _ _ => keeps_name) fun _ => counted_requests _
  argument close := bringsBack (fun _ _ h => keeps_argument h close) fun depth =>
    (composes_counted bound depth).argument close
  arguments close := bringsBack (fun _ _ h => keeps_arguments h close) fun depth =>
    (composes_counted bound depth).arguments close
  group kind := bringsBack_of_restores
    (fun depth => restores_group (keeps_expressionAt bound depth) kind) fun depth =>
    (composes_counted bound depth).group kind
  groups := bringsBack (fun _ _ h => keeps_groups h bound) fun depth =>
    (composes_counted bound depth).groups
  formals := bringsBack (fun _ _ h => keeps_formals h) fun depth =>
    (composes_counted bound depth).formals
  parenthesized := bringsBack (fun _ _ h => keeps_parenthesized h) fun depth =>
    (composes_counted bound depth).parenthesized
  block := bringsBack (fun _ _ h => keeps_block h) fun depth =>
    (composes_counted bound depth).block
  function := bringsBack (fun _ _ h => keeps_function h) fun depth =>
    (composes_counted bound depth).function
  ifForm := bringsBack (fun _ _ h => keeps_ifForm h) fun depth =>
    (composes_counted bound depth).ifForm
  forLoop := bringsBack (fun _ _ h => keeps_forLoop h) fun depth =>
    (composes_counted bound depth).forLoop
  whileLoop := bringsBack (fun _ _ h => keeps_whileLoop h) fun depth =>
    (composes_counted bound depth).whileLoop
  repeatLoop := bringsBack (fun _ _ h => keeps_repeatLoop h) fun depth =>
    (composes_counted bound depth).repeatLoop
  operand := bringsBack (fun _ _ h => keeps_operand h) fun depth =>
    (composes_counted bound depth).operand
  term := bringsBack (fun _ _ h => keeps_term h) fun depth =>
    (composes_counted bound depth).term
  leading start := bringsBack_of_restores
    (fun depth => restores_leading (keeps_expressionAt bound depth) start) fun depth =>
    (composes_counted bound depth).leading start
  level m := bringsBack (fun _ _ h => keeps_level h m) fun depth =>
    (composes_counted bound depth).level m
  expression m := bringsBack (fun _ _ h => h m) fun depth =>
    (composes_counted bound depth).call m
  statements close := bringsBack (fun _ _ h => keeps_statements h close bound) fun depth =>
    (composes_counted bound depth).statements close
  program := by
    refine bringsBack (fun _ _ h => ?_) fun depth => ?_
    · exact (keeps_statements h .eof bound).bind fun _ => keeps_done _
    · have hcounted := composes_counted bound depth
      exact hcounted.map (hcounted.statements .eof)

/-- **Wherever a program asks for a token, its layouts are those of the brackets** that the tokens
taken so far leave open, and none of these tokens closes another bracket than the innermost. All
parses bring back the layouts and the counter of the expressions around them. -/
theorem layouts_mirror_brackets :
    (∀ text bound, ∀ r ∈ (program bound).asks (.ofText text), ∃ taken o,
      (Feed.ofText text).unread = taken ++ r.unread ∧
        openedBy (taken.map (·.kind)) = some o ∧ r.layouts = o.map Bracket.layout) ∧
    ∀ bound, ParsesBringBack bound := by
  refine ⟨fun text bound r hr => ?_, parsesBringBack⟩
  have hstart := Feed.mirrors_self (.ofText text)
  obtain ⟨o, ⟨taken, htaken, hopen⟩, hlayouts⟩ :=
    (keeps_program (.ofText text) bound [] _ hstart).asks r hr
  exact ⟨taken, o, htaken, hopen, hlayouts.trans (List.append_nil _)⟩

end RSource
