import RSource.Proofs.PartingRequests
import RSource.Proofs.ReflowBracketed

/-!
# Lists between brackets in two sources that part

Each parse is followed by what it goes on with, so that what is said of it holds up to the end of
the whole parse.

* `Opening` — the tokens that an expression takes first, or that it is nested too deeply for any.
* `Parting.Tracks`, `Parting.Goes` — two parses that follow each other wherever they start, and are
  lawful where the sources part.
* `Parting.Parts` — an expression follows in the second source, whatever it is followed by.
* `goes_name`, `goes_arguments`, `goes_groups`, `goes_formals` and the like — **one for each
  parse**, given the same of an expression.
-/

namespace RSource

open Parse Parting

/-- The kinds of tokens that an expression takes first, and its reply to all others: it expects an
expression, or it is nested too deeply whatever comes. -/
structure Opening (expr : Grammar.ExprParse) (ω : Type) (A : TokenKind → Prop) (v : Reply) :
    Prop where
  decides : ∀ p (K : Expression → Parse ω), Decides A v ((expr p).bind K)
  shallow_or_deep : (∀ k, A k ↔ Grammar.startsExpression k = true) ∧ v = .refused [.expression] ∨
    (∀ k, ¬ A k) ∧ v = .tooDeep

namespace Opening

variable {expr : Grammar.ExprParse} {ω : Type} {A : TokenKind → Prop} {v : Reply}
  (h : Opening expr ω A v) {k : TokenKind}

include h

theorem fair : Fair A v := by
  rcases h.shallow_or_deep with ⟨hA, rfl⟩ | ⟨-, rfl⟩
  · refine Or.inr ⟨_, rfl, fun y hy => ?_⟩
    obtain rfl := List.mem_singleton.mp hy
    refine ⟨trivial, fun k hk => (hA k).mpr ?_⟩
    rcases hk with rfl | rfl <;> rfl
  · exact Or.inl rfl

theorem starts (hk : A k) : Grammar.startsExpression k = true := by
  rcases h.shallow_or_deep with ⟨hA, -⟩ | ⟨hA, -⟩
  · exact (hA k).mp hk
  · exact absurd hk (hA k)

theorem not_eof : ¬ A .eof := by
  intro hA
  simpa [Grammar.startsExpression] using h.starts hA

/-- A token that an expression may begin with is taken, unless nesting is too deep. -/
theorem deep (hk : ¬ A k) (hs : Grammar.startsExpression k = true) : v = .tooDeep := by
  rcases h.shallow_or_deep with ⟨hA, -⟩ | ⟨-, hv⟩
  · exact absurd ((hA k).mpr hs) hk
  · exact hv

end Opening

/-- Two parses in the scope follow each other wherever the sources come to the same point. -/
abbrev Parting.Tracks (F : Parting) {ω : Type} (c : Scope) (ls : List Layout) (n : Nat)
    (p q : Parse ω) : Prop :=
  ∀ m prev s r, m ≤ n → F.At c ls prev m s r → F.Follows p q s r

/-- They also do what they may where the sources part. -/
structure Parting.Goes (F : Parting) {ω : Type} (c : Scope) (ls : List Layout) (n : Nat)
    (p q : Parse ω) : Prop where
  lawful : 0 < n → F.scope = c → F.Lawful (ls.head? == some .free) p q
  follows : F.Tracks c ls n p q

theorem Parting.Goes.mono {F : Parting} {ω : Type} {c : Scope} {ls : List Layout} {m n : Nat}
    {p q : Parse ω} (h : F.Goes c ls n p q) (hm : m ≤ n) : F.Goes c ls m p q :=
  ⟨fun hpos => h.lawful (Nat.lt_of_lt_of_le hpos hm),
    fun k prev s r hk => h.follows k prev s r (Nat.le_trans hk hm)⟩

/-- An expression in the one source is followed by one in the other, whatever both go on with. Where
line feeds are visible, the expression must not begin with one. -/
structure Parting.Parts (F : Parting) (ω : Type) (expr : Grammar.ExprParse) (b : Nat)
    (A : TokenKind → Prop) (v : Reply) : Prop where
  opening : Opening expr ω A v
  follows : ∀ i (K K' : Expression → Parse ω) o ls prev n s r,
    F.At ⟨o, false⟩ ls prev (n + 1) s r → n + 1 ≤ b →
    (¬ F.Before s → ls.head? = some .free ∨ F.old.kind ≠ .newline) →
    (∀ e e', F.Goes ⟨o, false⟩ ls n (K e) (K' e')) →
    F.Follows ((expr i).bind K) ((expr i).bind K') s r

namespace Parting

variable {F : Parting} {ω : Type} {c : Scope} {ls : List Layout} {n : Nat}
  {A B : TokenKind → Prop} {v : Reply}

/-- The parse takes a token of the kinds. -/
def Takes (B : TokenKind → Prop) (p : Parse ω) : Prop :=
  ∀ u o, B u.kind → p.Faces u o → o = .taken

theorem decides_look {f : Token → Parse ω} (hf : ∀ t, Decides A v (f t)) :
    Decides A v (look.bind f) := fun u o h => hf u u o h

/-- A parse that takes the tokens of some kinds, and decides about all others. -/
theorem decides_look_ite [DecidablePred B] {p q : Token → Parse ω} (hp : ∀ t, Takes B (p t))
    (hq : ∀ t, Decides A v (q t)) :
    Decides (fun k => B k ∨ A k) v (look.bind fun t => if B t.kind then p t else q t) := by
  intro u o h
  change (if B u.kind then p u else q u).Faces u o at h
  split at h
  · rename_i hB
    exact Or.inl ⟨Or.inl hB, Or.inl (hp u u o hB h)⟩
  · rename_i hB
    rcases hq u u o h with ⟨hA, h⟩ | ⟨hA, h⟩
    · exact Or.inl ⟨Or.inr hA, h⟩
    · exact Or.inr ⟨fun hk => hA (hk.resolve_left hB), h⟩

/-- In brackets that ignore line feeds none is refused, so it is enough to decide about a token. -/
theorem lawful_of_free (hfree : ls.head? = some .free) {p q : Parse ω} (hp : Decides A v p)
    (hq : Decides A v q) (hv : Fair A v) (hend : ¬ A .eof) :
    F.Lawful (ls.head? == some .free) p q :=
  lawful_of_decides hp hq hv hend fun _ hl => by simp [hfree] at hl

/-- No tape has less than nothing left. -/
theorem Goes.zero {p q : Parse ω} : F.Goes c ls 0 p q := by
  refine ⟨fun h => absurd h (Nat.lt_irrefl 0), fun m prev s r hm hat => ?_⟩
  obtain ⟨k, rfl⟩ := hat.exists_succ
  exact absurd hm (Nat.not_succ_le_zero k)

/-- What both parses do about the next token may depend on it. -/
theorem Goes.look {f g : Token → Parse ω} (h : ∀ t t', F.Goes c ls n (f t) (g t')) :
    F.Goes c ls n (look.bind f) (look.bind g) := by
  have hlawful (hn : 0 < n) (hc : F.scope = c) :
      F.Lawful (ls.head? == some .free) (Parse.look.bind f) (Parse.look.bind g) := by
    have hl := (h F.old F.new).lawful hn hc
    exact ⟨fun u hu => ((h u u).lawful hn hc).steady u hu,
      fun u hk hu => ((h u u).lawful hn hc).end_left u hk hu, hl.lines, hl.usual, hl.same,
      hl.next⟩
  refine ⟨hlawful, fun m prev s r hm hat => ?_⟩
  refine hat.look (fun hp _ => ?_) fun u v hu hv _ _ _ => (h u v).follows m prev s r hm hat
  exact hlawful (Nat.lt_of_lt_of_le (Nat.zero_lt_of_lt hat.room) hm) hp.scope

/-- Both parses look at the next token. -/
theorem Goes.of_look {f g : Token → Parse ω}
    (hl : 0 < n → F.scope = c → F.Lawful (ls.head? == some .free) (Parse.look.bind f)
      (Parse.look.bind g))
    (hf : ∀ m prev s r u v, m ≤ n → F.At c ls prev m s r → s.front = .ok u → r.front = .ok v →
      Like u v → u.kind ≠ .eof → F.Before s → F.Follows (f u) (g v) s r) :
    F.Goes c ls n (Parse.look.bind f) (Parse.look.bind g) := by
  refine ⟨hl, fun m prev s r hm hat => ?_⟩
  refine hat.look (fun hp _ => ?_) fun u v hu hv huv hk hb =>
    hf m prev s r u v hm hat hu hv huv hk hb
  exact hl (Nat.lt_of_lt_of_le (Nat.zero_lt_of_lt hat.room) hm) hp.scope

/-- Both parses go on in one way behind tokens of some kinds, and in another behind all others. -/
theorem Goes.look_ite [DecidablePred B] (hfree : ls.head? = some .free)
    {p p' q q' : Token → Parse ω} (hp : ∀ t t', F.Goes c ls n (p t) (p' t'))
    (hq : ∀ t t', F.Goes c ls n (q t) (q' t')) (htakes : ∀ t, Takes B (p t) ∧ Takes B (p' t))
    (hdecides : ∀ t, Decides A v (q t) ∧ Decides A v (q' t)) (hv : Fair A v) (hA : ¬ A .eof)
    (hB : ¬ B .eof) :
    F.Goes c ls n (Parse.look.bind fun t => if B t.kind then p t else q t)
      (Parse.look.bind fun t => if B t.kind then p' t else q' t) := by
  refine Goes.of_look (fun _ _ => ?_) fun m prev s r u v hm hat hu hv huv hk hb => ?_
  · exact lawful_of_free hfree (decides_look_ite (fun t => (htakes t).1) fun t => (hdecides t).1)
      (decides_look_ite (fun t => (htakes t).2) fun t => (hdecides t).2)
      (hv.mono fun k hk => Or.inr hk) (by simp [hA, hB])
  · rw [huv.kind]
    split
    · exact (hp u v).follows m prev s r hm hat
    · exact (hq u v).follows m prev s r hm hat

/-- An expression in brackets that ignore line feeds. -/
theorem Parts.goes {expr : Grammar.ExprParse} {b i : Nat} (h : F.Parts ω expr b A v)
    (hfree : ls.head? = some .free) {o : List Bracket} {K K' : Expression → Parse ω} (hb : n ≤ b)
    (hK : ∀ e e', F.Goes ⟨o, false⟩ ls n (K e) (K' e')) :
    F.Goes ⟨o, false⟩ ls n ((expr i).bind K) ((expr i).bind K') := by
  refine ⟨fun _ _ => ?_, fun m prev s r hm hat => ?_⟩
  · exact lawful_of_free hfree (h.opening.decides i K) (h.opening.decides i K') h.opening.fair
      h.opening.not_eof
  · obtain ⟨m, rfl⟩ := hat.exists_succ
    exact h.follows i K K' o ls prev m s r hat (Nat.le_trans hm hb) (fun _ => Or.inl hfree)
      fun e e' => (hK e e').mono (Nat.le_of_succ_le hm)

end Parting

namespace Grammar

variable {F : Parting} {ω : Type} {expr : ExprParse} {b n : Nat} {A : TokenKind → Prop}
  {v : Reply} {o : List Bracket} {ls : List Layout} {close : TokenKind}

/-! ## Names -/

theorem decides_name (K : Identifier → Parse ω) :
    Decides (fun k => k = .ident ∨ k = .quotedIdent) (.refused [.identifier]) (name.bind K) := by
  intro u o h
  simp only [name, bind_eq_bind, look, Parse.bind, Faces] at h
  split at h
  · rename_i hk
    exact Or.inl ⟨hk, Or.inl h⟩
  · rename_i hk
    exact Or.inr ⟨fun hk' => absurd hk' hk, h⟩

theorem fair_name : Fair (fun k => k = .ident ∨ k = .quotedIdent) (.refused [.identifier]) := by
  refine Or.inr ⟨_, rfl, fun y hy => ?_⟩
  obtain rfl := List.mem_singleton.mp hy
  exact ⟨trivial, fun _ hk => hk⟩

theorem goes_name (hfree : ls.head? = some .free) {K K' : Identifier → Parse ω}
    (hK : ∀ i i', F.Goes ⟨o, false⟩ ls n (K i) (K' i')) :
    F.Goes ⟨o, false⟩ ls (n + 1) (name.bind K) (name.bind K') := by
  have hlawful : F.Lawful (ls.head? == some .free) (name.bind K) (name.bind K') :=
    lawful_of_decides (decides_name K) (decides_name K') fair_name (by simp)
      fun _ hl => by simp [hfree] at hl
  refine ⟨fun _ _ => hlawful, fun m prev s r hm h => ?_⟩
  simp only [name, bind_eq_bind, pure_eq_done, bind_bind, ite_bind, done_bind, reject_bind]
    at hlawful ⊢
  refine h.look (fun _ _ => hlawful) fun u v hu hv huv hk hb => ?_
  rw [huv.kind]
  split
  · rename_i hname
    refine h.drop hu hk fun m' prev' hm' hpast => ?_
    rw [(step_leaf (hname.imp_right Or.inl)).1] at hpast
    exact (hK _ _).follows m' prev' _ _ (by omega) hpast
  · exact hb.passes_reject.follows

/-! ## Arguments -/

/-- The kinds of tokens that may name an argument. -/
def namesArgument (k : TokenKind) : Prop :=
  k = .ident ∨ k = .quotedIdent ∨ k = .str ∨ k = .nullWord

theorem argName_none {t : Token} (h : ArgName.ofToken? t = none) : ¬ namesArgument t.kind := by
  rintro (hk | hk | hk | hk) <;>
    simp [ArgName.ofToken?, hk, Constant.ofToken?, ConstantKind.ofKind?] at h

theorem starts_of_namesArgument {k : TokenKind} (h : namesArgument k) :
    startsExpression k = true := by
  rcases h with rfl | rfl | rfl | rfl <;> rfl

/-- What stands behind the equals sign of an argument: a value, or nothing. -/
def behindName (expr : ExprParse) (close : TokenKind) (i : ArgName) (K : Argument → Parse ω) :
    Parse ω :=
  look.bind fun t =>
    if t.kind = .comma ∨ t.kind = close then K (.name i) else (expr 0).bind fun e => K (.named i e)

/-- What is done about an argument that begins with the token. -/
def argumentFrom (expr : ExprParse) (close : TokenKind) (K : Argument → Parse ω) (t : Token) :
    Parse ω :=
  match ArgName.ofToken? t with
  | none => (expr 0).bind fun e => K (.value e)
  | some i => lookSecond.bind fun t =>
      if t.kind = .eqAssign then drop.bind fun _ => drop.bind fun _ => behindName expr close i K
      else (expr 0).bind fun e => K (.value e)

theorem argument_bind (expr : ExprParse) (close : TokenKind) (K : Argument → Parse ω) :
    (argument expr close).bind K = look.bind (argumentFrom expr close K) := by
  simp only [argument, bind_eq_bind, pure_eq_done, bind_bind]
  congr 1
  funext t
  unfold argumentFrom behindName
  cases ArgName.ofToken? t with
  | none => simp only [bind_bind, done_bind]
  | some i => simp only [bind_bind, done_bind, ite_bind]

section Arguments

variable (hE : F.Parts ω expr b A v)

include hE

theorem decides_argument (K : Argument → Parse ω) :
    Decides (fun k => namesArgument k ∨ A k) v ((argument expr close).bind K) := by
  rw [argument_bind]
  intro u o h
  have hvalue (h : ((expr 0).bind fun e => K (.value e)).Faces u o) :
      (namesArgument u.kind ∨ A u.kind) ∧ (o = .taken ∨ o = .broken) ∨
        (namesArgument u.kind ∨ A u.kind → v = .tooDeep) ∧ o = v := by
    rcases hE.opening.decides 0 _ u o h with ⟨hA, h⟩ | ⟨hA, h⟩
    · exact Or.inl ⟨Or.inr hA, h⟩
    · refine Or.inr ⟨fun hk => ?_, h⟩
      by_cases hA' : A u.kind
      · exact hA hA'
      · exact hE.opening.deep hA' (starts_of_namesArgument (hk.resolve_right hA'))
  change (argumentFrom expr close K u).Faces u o at h
  rw [argumentFrom] at h
  cases hn : ArgName.ofToken? u with
  | none =>
      rw [hn] at h
      exact hvalue h
  | some i =>
      have hname : namesArgument u.kind := by
        unfold ArgName.ofToken? at hn
        split at hn <;> simp_all [namesArgument]
      rw [hn] at h
      rcases h with h | ⟨t, h⟩
      · exact Or.inl ⟨Or.inl hname, Or.inr h⟩
      · simp only [done_bind] at h
        split at h
        · exact Or.inl ⟨Or.inl hname, Or.inl h⟩
        · exact hvalue h

theorem goes_behindName (hfree : ls.head? = some .free) (hclose : close.isExpected = true)
    {i i' : ArgName}
    {K K' : Argument → Parse ω} (hb : n ≤ b)
    (hK : ∀ a a', F.Goes ⟨o, false⟩ ls n (K a) (K' a'))
    (htakes : ∀ a, Takes (fun k => k = .comma ∨ k = close) (K a) ∧
      Takes (fun k => k = .comma ∨ k = close) (K' a)) :
    F.Goes ⟨o, false⟩ ls n (behindName expr close i K) (behindName expr close i' K') := by
  refine Goes.look_ite (B := fun k => k = .comma ∨ k = close) (A := A) (v := v) hfree
    (fun _ _ => hK _ _) (fun _ _ => ?_) (fun _ => ?_) (fun _ => ?_) hE.opening.fair
    hE.opening.not_eof (by simp [Ne.symm (TokenKind.ne_of_isExpected hclose).1])
  · exact hE.goes hfree hb fun e e' => hK _ _
  · exact ⟨(htakes (.name i)).1, (htakes (.name i')).2⟩
  · exact ⟨hE.opening.decides 0 _, hE.opening.decides 0 _⟩

theorem goes_argument (hfree : ls.head? = some .free) (hclose : close.isExpected = true)
    {K K' : Argument → Parse ω} (hb : n ≤ b)
    (hK : ∀ a a', F.Goes ⟨o, false⟩ ls n (K a) (K' a'))
    (htakes : ∀ a, Takes (fun k => k = .comma ∨ k = close) (K a) ∧
      Takes (fun k => k = .comma ∨ k = close) (K' a)) :
    F.Goes ⟨o, false⟩ ls n ((argument expr close).bind K) ((argument expr close).bind K') := by
  have hvalue : F.Goes ⟨o, false⟩ ls n ((expr 0).bind fun e => K (.value e))
      ((expr 0).bind fun e => K' (.value e)) := hE.goes hfree hb fun e e' => hK _ _
  have hlawful : F.Lawful (ls.head? == some .free) ((argument expr close).bind K)
      ((argument expr close).bind K') :=
    lawful_of_free hfree (decides_argument hE K) (decides_argument hE K')
      (hE.opening.fair.mono fun k hk => Or.inr hk) (by simp [namesArgument, hE.opening.not_eof])
  rw [argument_bind, argument_bind] at *
  refine Goes.of_look (fun _ _ => hlawful) fun m prev s r u v hm hat hu hv huv hk hb' => ?_
  have hname := huv.argName
  rw [argumentFrom, argumentFrom]
  cases hn : ArgName.ofToken? u with
  | none =>
      have hn' : ArgName.ofToken? v = none := by simpa [hn] using hname.symm
      rw [hn']
      exact hvalue.follows m prev s r hm hat
  | some i =>
      obtain ⟨i', hn', -⟩ : ∃ i', ArgName.ofToken? v = some i' ∧
          i'.relocate Location.toStart = i.relocate Location.toStart := by
        simpa [hn] using hname.symm
      rw [hn']
      obtain ⟨hstep, -⟩ := step_argName (o := o) hn
      refine hat.lookSecond hfree hu hk (by rw [hstep]) hb' (fun t t' ht ht' htt => ?_)
        fun hold hnew hpast => ?_
      · rw [htt]
        split
        · rename_i heq
          refine hat.drop hu hk fun m' prev' hm' hat' => ?_
          rw [hstep] at hat'
          refine hat'.drop ht (by simp [heq]) fun m'' prev'' hm'' hat'' => ?_
          rw [heq] at hat''
          exact (goes_behindName hE hfree hclose hb hK htakes).follows m'' prev'' _ _ (by omega)
            hat''
        · exact hvalue.follows m prev s r hm hat
      · by_cases heq : F.old.kind = .eqAssign
        · -- The equals sign is taken, which is past the point where the sources part.
          rw [if_pos heq]
          refine Passes.follows fun x s' hx => ?_
          rw [drop, Parse.bind, refusal, hu] at hx
          exact passes_take hold (by simp [heq]) hpast x s' hx
        · have heq' : F.new.kind ≠ .eqAssign := new_ne heq (Or.inr (Or.inr rfl))
          rw [if_neg heq, if_neg heq']
          exact hvalue.follows m prev s r hm hat

omit hE in
theorem slot_bind (expr : ExprParse) (close : TokenKind) (K : Argument → Parse ω) :
    (slot expr close).bind K = look.bind fun t =>
      if t.kind = .comma then K .empty else (argument expr close).bind K := by
  simp only [slot, bind_eq_bind, pure_eq_done, bind_bind, ite_bind, done_bind]

theorem decides_slot {K : Argument → Parse ω}
    (htakes : ∀ a, Takes (fun k => k = .comma ∨ k = close) (K a)) :
    Decides (fun k => k = .comma ∨ namesArgument k ∨ A k) v ((slot expr close).bind K) := by
  rw [slot_bind]
  exact decides_look_ite (B := (· = .comma)) (fun _ u o hu => htakes _ u o (Or.inl hu))
    fun _ => decides_argument hE K

theorem goes_slot (hfree : ls.head? = some .free) (hclose : close.isExpected = true)
    {K K' : Argument → Parse ω} (hb : n ≤ b)
    (hK : ∀ a a', F.Goes ⟨o, false⟩ ls n (K a) (K' a'))
    (htakes : ∀ a, Takes (fun k => k = .comma ∨ k = close) (K a) ∧
      Takes (fun k => k = .comma ∨ k = close) (K' a)) :
    F.Goes ⟨o, false⟩ ls n ((slot expr close).bind K) ((slot expr close).bind K') := by
  rw [slot_bind, slot_bind]
  refine Goes.look_ite (B := (· = .comma)) hfree (fun _ _ => hK _ _)
    (fun _ _ => goes_argument hE hfree hclose hb hK htakes)
    (fun _ => ⟨fun u o hu => (htakes _).1 u o (Or.inl hu),
      fun u o hu => (htakes _).2 u o (Or.inl hu)⟩)
    (fun _ => ⟨decides_argument hE K, decides_argument hE K'⟩)
    (hE.opening.fair.mono fun k hk => Or.inr hk) ?_ (by simp)
  simp [namesArgument, hE.opening.not_eof]

end Arguments

/-! ## Lists -/

/-- What stands behind an item of a list: a comma and more of it, or the closing token. -/
def behindItem (close : TokenKind) (p q : Parse ω) : Parse ω :=
  look.bind fun t =>
    if t.kind = .comma then drop.bind fun _ => p
    else if t.kind = close then q
    else .reject [.token .comma, .token close]

theorem faces_behindItem {p q : Parse ω} (hq : Takes (· = close) q) {u : Token} {o : Reply}
    (h : (behindItem close p q).Faces u o) :
    (u.kind = .comma ∨ u.kind = close) ∧ o = .taken ∨
      ¬ (u.kind = .comma ∨ u.kind = close) ∧ o = .refused [.token .comma, .token close] := by
  change (if u.kind = .comma then drop.bind fun _ => p else if u.kind = close then q
    else .reject [.token .comma, .token close] : Parse ω).Faces u o at h
  split at h
  · rename_i hk
    exact Or.inl ⟨Or.inl hk, h⟩
  · rename_i hk
    split at h
    · rename_i hk'
      exact Or.inl ⟨Or.inr hk', hq u o hk' h⟩
    · rename_i hk'
      exact Or.inr ⟨not_or.mpr ⟨hk, hk'⟩, h⟩

theorem decides_behindItem {p q : Parse ω} (hq : Takes (· = close) q) :
    Decides (fun k => k = .comma ∨ k = close) (.refused [.token .comma, .token close])
      (behindItem close p q) := fun _ _ h =>
  (faces_behindItem hq h).imp (And.imp_right Or.inl) (And.imp_left fun hA hA' => absurd hA' hA)

theorem takes_behindItem {p q : Parse ω} (hq : Takes (· = close) q) :
    Takes (fun k => k = .comma ∨ k = close) (behindItem close p q) := fun _ _ hu h =>
  ((faces_behindItem hq h).resolve_right fun hA => hA.1 hu).2

theorem goes_behindItem (hfree : ls.head? = some .free) (hclose : close.isExpected = true)
    {p p' q q' : Parse ω} (hp : F.Goes ⟨o, false⟩ ls n p p')
    (hq : F.Goes ⟨o, false⟩ ls (n + 1) q q') (htakes : Takes (· = close) q ∧ Takes (· = close) q') :
    F.Goes ⟨o, false⟩ ls (n + 1) (behindItem close p q) (behindItem close p' q') := by
  have hfair : Fair (fun k => k = .comma ∨ k = close)
      (.refused [.token .comma, .token close]) := by
    refine Or.inr ⟨_, rfl, fun y hy => ?_⟩
    simp only [List.mem_cons, List.not_mem_nil, or_false] at hy
    rcases hy with rfl | rfl
    · exact ⟨rfl, fun _ hk => Or.inl hk⟩
    · exact ⟨hclose, fun _ hk => Or.inr hk⟩
  refine Goes.of_look (fun _ _ => ?_) fun m prev s r u v hm hat hu hv huv hk hb => ?_
  · exact lawful_of_free hfree (decides_behindItem htakes.1) (decides_behindItem htakes.2) hfair
      (by simp [Ne.symm (TokenKind.ne_of_isExpected hclose).1])
  · rw [huv.kind]
    split
    · rename_i hcomma
      refine hat.drop hu hk fun m' prev' hm' hat' => ?_
      rw [hcomma] at hat'
      exact hp.follows m' prev' _ _ (by omega) hat'
    · split
      · exact hq.follows m prev s r hm hat
      · exact hb.passes_reject.follows

section Slots

variable (hE : F.Parts ω expr b A v)

theorem slots_bind (expr : ExprParse) (close : TokenKind) (k : Nat)
    (K : List Argument → Parse ω) :
    (slots expr close (k + 1)).bind K = (slot expr close).bind fun first =>
      behindItem close
        (look.bind fun t =>
          if t.kind = close then K [first, .empty]
          else (slots expr close k).bind fun rest => K (first :: rest))
        (K [first]) := by
  simp only [slots, behindItem, bind_eq_bind, pure_eq_done, bind_bind, ite_bind, done_bind,
    reject_bind]

theorem arguments_bind (expr : ExprParse) (close : TokenKind) (k : Nat)
    (K : List Argument → Parse ω) :
    (arguments expr close k).bind K = look.bind fun t =>
      if t.kind = close then K [] else (slots expr close k).bind K := by
  simp only [arguments, bind_eq_bind, pure_eq_done, bind_bind, ite_bind, done_bind]

include hE

theorem decides_slots {K : List Argument → Parse ω} (htakes : ∀ as, Takes (· = close) (K as))
    (k : Nat) :
    Decides (fun k => k = .comma ∨ namesArgument k ∨ A k) v
      ((slots expr close (k + 1)).bind K) := by
  rw [slots_bind]
  exact decides_slot hE fun a => takes_behindItem (htakes [a])

/-- The closing token, or a list that has as many items as there may be tokens. -/
theorem goes_closeOr (hfree : ls.head? = some .free) (hclose : close.isExpected = true)
    {p p' : Parse ω}
    {K K' : List Argument → Parse ω} {k : Nat} (hk : n ≤ k) (hp : F.Goes ⟨o, false⟩ ls n p p')
    (htake : Takes (· = close) p ∧ Takes (· = close) p')
    (hslots : F.Goes ⟨o, false⟩ ls n ((slots expr close k).bind K) ((slots expr close k).bind K'))
    (htakes : ∀ as, Takes (· = close) (K as) ∧ Takes (· = close) (K' as)) :
    F.Goes ⟨o, false⟩ ls n
      (look.bind fun t => if t.kind = close then p else (slots expr close k).bind K)
      (look.bind fun t => if t.kind = close then p' else (slots expr close k).bind K') := by
  cases k with
  | zero =>
      obtain rfl := Nat.le_zero.mp hk
      exact Goes.zero
  | succ k =>
      exact Goes.look_ite (B := (· = close)) hfree (fun _ _ => hp) (fun _ _ => hslots)
        (fun _ => htake)
        (fun _ => ⟨decides_slots hE (fun as => (htakes as).1) k,
          decides_slots hE (fun as => (htakes as).2) k⟩)
        (hE.opening.fair.mono fun k hk => Or.inr (Or.inr hk))
        (by simp [namesArgument, hE.opening.not_eof])
        (Ne.symm (TokenKind.ne_of_isExpected hclose).1)

theorem goes_slots (hfree : ls.head? = some .free) (hclose : close.isExpected = true)
    {K K' : List Argument → Parse ω} (hb : n ≤ b) {k : Nat} (hk : n ≤ k)
    (hK : ∀ as as', F.Goes ⟨o, false⟩ ls n (K as) (K' as'))
    (htakes : ∀ as, Takes (· = close) (K as) ∧ Takes (· = close) (K' as)) :
    F.Goes ⟨o, false⟩ ls n ((slots expr close k).bind K) ((slots expr close k).bind K') := by
  induction k generalizing n K K' with
  | zero =>
      obtain rfl := Nat.le_zero.mp hk
      exact Goes.zero
  | succ k ih =>
      cases n with
      | zero => exact Goes.zero
      | succ n =>
          rw [slots_bind, slots_bind]
          refine goes_slot hE hfree hclose hb (fun first first' => ?_) fun first =>
            ⟨takes_behindItem (htakes _).1, takes_behindItem (htakes _).2⟩
          have hk' : n ≤ k := Nat.le_of_succ_le_succ hk
          have hrest : F.Goes ⟨o, false⟩ ls n
              ((slots expr close k).bind fun rest => K (first :: rest))
              ((slots expr close k).bind fun rest => K' (first' :: rest)) :=
            ih (Nat.le_of_succ_le hb) hk' (fun _ _ => (hK _ _).mono (Nat.le_succ n)) fun as =>
              ⟨(htakes _).1, (htakes _).2⟩
          refine goes_behindItem hfree hclose ?_ (hK _ _) ⟨(htakes _).1, (htakes _).2⟩
          exact goes_closeOr hE hfree hclose hk' ((hK _ _).mono (Nat.le_succ n))
            ⟨(htakes _).1, (htakes _).2⟩ hrest fun as => ⟨(htakes _).1, (htakes _).2⟩

theorem goes_arguments (hfree : ls.head? = some .free) (hclose : close.isExpected = true)
    {K K' : List Argument → Parse ω} (hb : n ≤ b)
    (hK : ∀ as as', F.Goes ⟨o, false⟩ ls n (K as) (K' as'))
    (htakes : ∀ as, Takes (· = close) (K as) ∧ Takes (· = close) (K' as)) :
    F.Goes ⟨o, false⟩ ls n ((arguments expr close b).bind K)
      ((arguments expr close b).bind K') := by
  rw [arguments_bind, arguments_bind]
  exact goes_closeOr hE hfree hclose hb (hK [] []) (htakes [])
    (goes_slots hE hfree hclose hb hb hK htakes) htakes

end Slots

/-! ## Brackets behind an operand -/

theorem takes_demand (kind : TokenKind) (f : Token → Parse ω) :
    Takes (· = kind) ((demand kind).bind f) := by
  intro u o hu h
  change ((if u.kind = kind then accept else .reject [.token kind]).bind f).Faces u o at h
  rw [if_pos hu] at h
  exact h

/-- Demanding a token in brackets that ignore line feeds. -/
theorem goes_demand {kind : TokenKind} {c : Scope} (hfree : ls.head? = some .free)
    (hexpected : kind.isExpected = true) {f g : Token → Parse ω}
    (hf : ∀ m u v s r, m < n → u.kind = kind → F.At (c.step kind) ls (some (u, v)) m s r →
      F.Follows (f u) (g v) s r) :
    F.Goes c ls n ((demand kind).bind f) ((demand kind).bind g) := by
  refine ⟨fun _ _ => ?_, fun m prev s r hm hat => ?_⟩
  · exact lawful_of_free hfree (decides_demand kind f) (decides_demand kind g)
      (fair_token hexpected)
      (fun h => (TokenKind.ne_of_isExpected hexpected).1 h.symm)
  · exact hat.demand hexpected (fun _ => Or.inl hfree) fun m' u v hm' hk hat' =>
      hf m' u v _ _ (by omega) hk hat'

theorem takes_closing (kind : Brackets) (K : Unit → Parse ω) :
    Takes (· = kind.closing) ((closing kind).bind K) := by
  rw [closing, bind_eq_bind, bind_bind]
  exact takes_demand _ _

theorem goes_closing (kind : Brackets) (hfree : ls.head? = some .free) {K K' : Unit → Parse ω}
    (hK : ∀ m prev s r, m < n → F.At ⟨o, false⟩ ls prev m s r → F.Follows (K ()) (K' ()) s r) :
    F.Goes ⟨bracketOf kind :: o, false⟩ ls n ((closing kind).bind K)
      ((closing kind).bind K') := by
  rw [closing, bind_eq_bind, bind_bind, bind_bind]
  refine goes_demand hfree (by cases kind <;> rfl) fun m u v s r hm hk hat => ?_
  cases kind with
  | call | index => exact hK m _ s r hm hat
  | element =>
      exact At.secondBracket hat hfree hk fun m' prev hm' hat' => hK m' prev _ _ (by omega) hat'

section Groups

variable (hE : F.Parts ω expr b A v)

theorem group_bind (expr : ExprParse) (b : Nat) (kind : Brackets) (K : Group → Parse ω) :
    (group expr b kind).bind K = drop.bind fun _ => (opened .free).bind fun _ => look.bind fun t =>
      (arguments expr kind.closing b).bind fun as => (closing kind).bind fun _ =>
        closed.bind fun _ => K (.mk t.loc kind as) := by
  simp only [group, bind_eq_bind, pure_eq_done, bind_bind, done_bind]

theorem groups_bind (expr : ExprParse) (b k : Nat) (K : List Group → Parse ω) :
    (groups expr b (k + 1)).bind K = look.bind fun t =>
      match Brackets.ofKind? t.kind with
      | none => K []
      | some kind => (group expr b kind).bind fun g =>
          (groups expr b k).bind fun gs => K (g :: gs) := by
  simp only [groups, bind_eq_bind, pure_eq_done, bind_bind]
  congr 1
  funext t
  cases Brackets.ofKind? t.kind with
  | none => rfl
  | some kind => simp only [bind_bind, done_bind]

/-- A bracket is taken; about any other token it is decided behind the groups. -/
theorem faces_groups {k : Nat} {K : List Group → Parse ω} (u : Token) (a : Reply)
    (h : ((groups expr b (k + 1)).bind K).Faces u a) :
    (Brackets.ofKind? u.kind).isSome = true ∧ a = .taken ∨
      ¬ (Brackets.ofKind? u.kind).isSome = true ∧ (K []).Faces u a := by
  rw [groups_bind] at h
  simp only [look, Parse.bind, Faces] at h
  cases hkind : Brackets.ofKind? u.kind with
  | none =>
      rw [hkind] at h
      exact Or.inr ⟨by simp, h⟩
  | some kind =>
      rw [hkind] at h
      exact Or.inl ⟨rfl, h⟩

include hE

theorem follows_group {prev : Option (Token × Token)} {s r : Tape} {u : Token} {kind : Brackets}
    (h : F.At ⟨o, false⟩ ls prev (n + 1) s r) (hu : s.front = .ok u)
    (hk : Brackets.ofKind? u.kind = some kind) (hb : n + 1 ≤ b) {K K' : Group → Parse ω}
    (hK : ∀ g g', F.Goes ⟨o, false⟩ ls n (K g) (K' g')) :
    F.Follows ((group expr b kind).bind K) ((group expr b kind).bind K') s r := by
  obtain ⟨hstep, -, hne⟩ := step_brackets (o := o) hk
  rw [group_bind, group_bind]
  refine h.drop hu hne fun m prev' hm hat => hat.opened fun hin => ?_
  rw [hstep] at hin
  obtain rfl : n = m := Nat.succ.inj hm
  refine Goes.follows (Goes.look fun t t' => ?_) n prev' _ _ (Nat.le_refl n) hin
  refine goes_arguments hE rfl (by cases kind <;> rfl) (Nat.le_of_succ_le hb)
    (fun as as' => ?_) fun as => ⟨takes_closing kind _, takes_closing kind _⟩
  refine goes_closing kind rfl fun m prev s r hm hat => hat.closed fun hout => ?_
  exact (hK _ _).follows m prev _ _ (Nat.le_of_lt hm) hout

theorem goes_groups {k : Nat} (hb : n ≤ b) (hk : n ≤ k) {K K' : List Group → Parse ω}
    (hK : ∀ gs gs', F.Goes ⟨o, false⟩ ls n (K gs) (K' gs')) :
    F.Goes ⟨o, false⟩ ls n ((groups expr b k).bind K) ((groups expr b k).bind K') := by
  induction k generalizing n K K' with
  | zero =>
      obtain rfl := Nat.le_zero.mp hk
      exact Goes.zero
  | succ k ih =>
      have hfaces (u a) (h : ((groups expr b (k + 1)).bind K).Faces u a) := faces_groups u a h
      have hfaces' (u a) (h : ((groups expr b (k + 1)).bind K').Faces u a) := faces_groups u a h
      rw [groups_bind] at hfaces hfaces' ⊢
      rw [groups_bind]
      refine Goes.of_look (fun hpos hc => ?_) fun m prev s r u v hm hat hu hv huv hne hbefore => ?_
      · exact lawful_of_passes (A := fun k => (Brackets.ofKind? k).isSome = true)
          (fun u a h => (hfaces u a h).imp_left (And.imp_right Or.inl))
          (fun u a h => (hfaces' u a h).imp_left (And.imp_right Or.inl))
          (by simp [Brackets.ofKind?]) ((hK [] []).lawful hpos hc)
      · rw [huv.kind]
        cases hkind : Brackets.ofKind? u.kind with
        | none => exact (hK [] []).follows m prev s r hm hat
        | some kind =>
            obtain ⟨m, rfl⟩ := hat.exists_succ
            refine follows_group hE hat hu hkind (by omega) fun g g' => ?_
            exact ih (by omega) (by omega) fun gs gs' => (hK _ _).mono (by omega)

/-- A call or subscript stands here, so there is less left behind all of them. -/
theorem follows_someGroups {prev : Option (Token × Token)} {s r : Tape} {u w : Token} {k : Nat}
    (h : F.At ⟨o, false⟩ ls prev (n + 1) s r) (hu : s.front = .ok u) (hw : r.front = .ok w)
    (huw : Like u w) (hbracket : (Brackets.ofKind? u.kind).isSome = true) (hb : n + 1 ≤ b)
    (hk : n + 1 ≤ k) {K K' : List Group → Parse ω}
    (hK : ∀ gs gs', F.Goes ⟨o, false⟩ ls n (K gs) (K' gs')) :
    F.Follows ((groups expr b k).bind K) ((groups expr b k).bind K') s r := by
  obtain ⟨k, rfl⟩ := Nat.exists_eq_add_one_of_ne_zero (Nat.ne_of_gt (Nat.lt_of_lt_of_le
    (Nat.zero_lt_succ n) hk))
  obtain ⟨kind, hkind⟩ := Option.isSome_iff_exists.mp hbracket
  rw [groups_bind, groups_bind]
  refine At.look_again hu hw ?_
  rw [huw.kind, hkind]
  refine follows_group hE h hu hkind hb fun g g' => ?_
  exact goes_groups hE (by omega) (by omega) fun gs gs' => hK _ _

end Groups

/-! ## Parameters -/

section Formals

variable (hE : F.Parts ω expr b A v)

theorem formal_bind (expr : ExprParse) (K : Formal → Parse ω) :
    (formal expr).bind K = name.bind fun i => look.bind fun t =>
      if t.kind = .eqAssign then drop.bind fun _ => (expr 0).bind fun e => K (.defaulted i e)
      else K (.required i) := by
  simp only [formal, bind_eq_bind, pure_eq_done, bind_bind, ite_bind, done_bind]

theorem someFormals_bind (expr : ExprParse) (k : Nat) (K : List Formal → Parse ω) :
    (someFormals expr (k + 1)).bind K = (formal expr).bind fun first =>
      behindItem .rparen ((someFormals expr k).bind fun rest => K (first :: rest)) (K [first]) := by
  simp only [someFormals, behindItem, bind_eq_bind, pure_eq_done, bind_bind, ite_bind, done_bind,
    reject_bind]

theorem formals_bind (expr : ExprParse) (k : Nat) (K : List Formal → Parse ω) :
    (formals expr k).bind K = look.bind fun t =>
      if t.kind = .rparen then K [] else (someFormals expr k).bind K := by
  simp only [formals, bind_eq_bind, pure_eq_done, bind_bind, ite_bind, done_bind]

theorem decides_someFormals (expr : ExprParse) (k : Nat) (K : List Formal → Parse ω) :
    Decides (fun k => k = .ident ∨ k = .quotedIdent) (.refused [.identifier])
      ((someFormals expr (k + 1)).bind K) := by
  rw [someFormals_bind, formal_bind]
  exact decides_name _

include hE

theorem goes_formal (hfree : ls.head? = some .free) {K K' : Formal → Parse ω} (hb : n ≤ b)
    (hK : ∀ p p', F.Goes ⟨o, false⟩ ls n (K p) (K' p')) :
    F.Goes ⟨o, false⟩ ls (n + 1) ((formal expr).bind K) ((formal expr).bind K') := by
  rw [formal_bind, formal_bind]
  refine goes_name hfree fun i i' => ?_
  refine Goes.of_look (fun hpos hc => ?_) fun m prev s r u v hm hat hu hv huv hk hb' => ?_
  · have hfaces {K : Formal → Parse ω} {i : Identifier} (u : Token) (o : Reply)
        (h : (if u.kind = .eqAssign then
            drop.bind fun _ => (expr 0).bind fun e => K (.defaulted i e)
          else K (.required i)).Faces u o) :
        u.kind = .eqAssign ∧ (o = .taken ∨ o = .broken) ∨
          ¬ u.kind = .eqAssign ∧ (K (.required i)).Faces u o := by
      split at h
      · rename_i hk
        exact Or.inl ⟨hk, Or.inl h⟩
      · rename_i hk
        exact Or.inr ⟨hk, h⟩
    exact lawful_of_passes (A := (· = .eqAssign)) hfaces hfaces (by simp)
      ((hK (.required i) (.required i')).lawful hpos hc)
  · rw [huv.kind]
    split
    · rename_i heq
      refine hat.drop hu hk fun m' prev' hm' hat' => ?_
      rw [heq] at hat'
      have hvalue := hE.goes (o := o) (i := 0) hfree hb fun e e' =>
        hK (.defaulted i e) (.defaulted i' e')
      exact hvalue.follows m' prev' _ _ (by omega) hat'
    · exact (hK _ _).follows m prev s r hm hat

theorem goes_someFormals (hfree : ls.head? = some .free) {K K' : List Formal → Parse ω} {k : Nat}
    (hb : n ≤ b) (hk : n ≤ k) (hK : ∀ ps ps', F.Goes ⟨o, false⟩ ls n (K ps) (K' ps'))
    (htakes : ∀ ps, Takes (· = .rparen) (K ps) ∧ Takes (· = .rparen) (K' ps)) :
    F.Goes ⟨o, false⟩ ls n ((someFormals expr k).bind K) ((someFormals expr k).bind K') := by
  induction k generalizing n K K' with
  | zero =>
      obtain rfl := Nat.le_zero.mp hk
      exact Goes.zero
  | succ k ih =>
      cases n with
      | zero => exact Goes.zero
      | succ n =>
          rw [someFormals_bind, someFormals_bind]
          have hb' : n ≤ b := Nat.le_of_succ_le hb
          refine goes_formal hE hfree hb' fun first first' => ?_
          cases n with
          | zero => exact Goes.zero
          | succ n =>
              refine goes_behindItem hfree rfl ?_ ((hK _ _).mono (Nat.le_succ _))
                ⟨(htakes _).1, (htakes _).2⟩
              exact ih (Nat.le_of_succ_le hb') (by omega) (fun _ _ => (hK _ _).mono (by omega))
                fun ps => ⟨(htakes _).1, (htakes _).2⟩

theorem goes_formals (hfree : ls.head? = some .free) {K K' : List Formal → Parse ω} {k : Nat}
    (hb : n ≤ b) (hk : n ≤ k) (hK : ∀ ps ps', F.Goes ⟨o, false⟩ ls n (K ps) (K' ps'))
    (htakes : ∀ ps, Takes (· = .rparen) (K ps) ∧ Takes (· = .rparen) (K' ps)) :
    F.Goes ⟨o, false⟩ ls n ((formals expr k).bind K) ((formals expr k).bind K') := by
  cases k with
  | zero =>
      obtain rfl := Nat.le_zero.mp hk
      exact Goes.zero
  | succ k =>
      rw [formals_bind, formals_bind]
      exact Goes.look_ite (B := (· = .rparen)) hfree (fun _ _ => hK _ _)
        (fun _ _ => goes_someFormals hE hfree hb hk hK htakes) (fun _ => htakes _)
        (fun _ => ⟨decides_someFormals expr k K, decides_someFormals expr k K'⟩) fair_name
        (by simp) (by simp)

end Formals

end Grammar

end RSource
