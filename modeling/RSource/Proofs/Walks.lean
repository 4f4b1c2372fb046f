import Mathlib.Data.List.Perm.Basic
import RSource.Node.Walk

/-!
# The orders of walks

A node is found by the path that leads to it. Where walks of both orders come, and in which order,
is said of these paths.

* `Visitor`, `Node.accept` — a handler for each kind of node, and the one that a node runs.
* `Above`, `LeftOf`, `WalkOrder.Earlier` — the ancestors of a path, the paths to its left, and which
  of two paths a walk comes to earlier.
* `Node.walk`, `Node.trail` — a walk of either order, and the paths to what it lists.
* `Node.listed_walk` — **a walk lists what its trail leads to**, each node with its depth.
* `Node.mem_trail` — a walk comes wherever it does not stop above.
* `Node.trail_earlier` — **a trail is in order**, and so comes nowhere twice.
* `Visitor.Lists` — a visitor that lists what it comes to, and what its children list in turn.
* `Node.accept_of_lists` — **each such visitor walks**, and `Node.lister` is one.
* `Node.walks_agree` — **visitors of both orders list the same nodes**: those of the whole walk
  above which they do not stop.
-/

namespace RSource

/-! ## Visitors -/

/-- A handler for each kind of node. -/
structure Visitor (δ ω : Type) where
  program : Node → δ → ω
  expression : Node → δ → ω
  condition : Node → δ → ω
  expressionList : Node → δ → ω
  groups : Node → δ → ω
  group : Node → δ → ω
  formals : Node → δ → ω
  arguments : Node → δ → ω
  assignment : Node → δ → ω
  block : Node → δ → ω
  constant : Node → δ → ω
  forLoop : Node → δ → ω
  function : Node → δ → ω
  help : Node → δ → ω
  identifier : Node → δ → ω
  ifForm : Node → δ → ω
  repeatLoop : Node → δ → ω
  whileLoop : Node → δ → ω

section Visitor

variable {δ ω : Type}

/-- A visitor that handles all nodes alike. -/
def Visitor.ofNode (visit : Node → δ → ω) : Visitor δ ω :=
  ⟨visit, visit, visit, visit, visit, visit, visit, visit, visit, visit, visit, visit, visit, visit,
    visit, visit, visit, visit⟩

/-- Runs the handler for the kind of the node. -/
def Node.accept (v : Visitor δ ω) (n : Node) : δ → ω :=
  match n.label with
  | .program => v.program n
  | .expression => v.expression n
  | .condition => v.condition n
  | .expressionList => v.expressionList n
  | .groups => v.groups n
  | .group => v.group n
  | .formals => v.formals n
  | .arguments => v.arguments n
  | .assignment => v.assignment n
  | .block => v.block n
  | .constant _ _ => v.constant n
  | .forLoop => v.forLoop n
  | .function => v.function n
  | .help => v.help n
  | .identifier _ _ => v.identifier n
  | .ifForm => v.ifForm n
  | .repeatLoop => v.repeatLoop n
  | .whileLoop => v.whileLoop n

@[simp] theorem Node.accept_ofNode (visit : Node → δ → ω) (n : Node) :
    n.accept (.ofNode visit) = visit n := by
  unfold accept
  cases n.label <;> rfl

end Visitor

/-! ## Paths -/

/-- The first path leads to an ancestor of what the second one leads to. -/
def Above (p q : List Nat) : Prop := p <+: q ∧ p ≠ q

/-- The paths part, and the first one turns to an earlier child. -/
inductive LeftOf : List Nat → List Nat → Prop where
  | mk (r : List Nat) {i j : Nat} (h : i < j) (p q : List Nat) : LeftOf (r ++ i :: p) (r ++ j :: q)

variable {p q : List Nat} {i j : Nat}

theorem above_nil_cons (i : Nat) (p : List Nat) : Above [] (i :: p) :=
  ⟨List.nil_prefix, (List.cons_ne_nil i p).symm⟩

theorem Above.cons (h : Above p q) (i : Nat) : Above (i :: p) (i :: q) :=
  ⟨List.cons_prefix_cons.mpr ⟨rfl, h.1⟩, fun heq => h.2 (List.cons.inj heq).2⟩

theorem LeftOf.cons (h : LeftOf p q) (i : Nat) : LeftOf (i :: p) (i :: q) := by
  obtain ⟨r, hij, p, q⟩ := h
  exact .mk (i :: r) hij p q

theorem LeftOf.of_lt (h : i < j) (p q : List Nat) : LeftOf (i :: p) (j :: q) := .mk [] h p q

theorem LeftOf.ne (h : LeftOf p q) : p ≠ q := by
  obtain ⟨r, hij, p, q⟩ := h
  intro heq
  cases List.append_cancel_left heq
  exact Nat.lt_irrefl _ hij

/-- Whether a walk lists a node before or after what is below it. -/
inductive WalkOrder where
  | before
  | after
  deriving DecidableEq, Repr

namespace WalkOrder

/-- Which of two paths a walk comes to earlier. -/
def Earlier : WalkOrder → List Nat → List Nat → Prop
  | before, p, q => Above p q ∨ LeftOf p q
  | after, p, q => Above q p ∨ LeftOf p q

variable {o : WalkOrder}

theorem Earlier.cons (h : o.Earlier p q) (i : Nat) : o.Earlier (i :: p) (i :: q) := by
  cases o <;> exact h.imp (·.cons i) (·.cons i)

theorem Earlier.of_lt (o : WalkOrder) (h : i < j) (p q : List Nat) :
    o.Earlier (i :: p) (j :: q) := by
  cases o <;> exact Or.inr (.of_lt h p q)

theorem Earlier.ne (h : o.Earlier p q) : p ≠ q := by
  cases o with
  | before => exact h.elim (·.2) LeftOf.ne
  | after => exact h.elim (fun h => h.2.symm) LeftOf.ne

/-- Puts a node before or after what is below it. -/
def put {α : Type} : WalkOrder → α → List α → List α
  | before, x, below => x :: below
  | after, x, below => below ++ [x]

theorem mem_put {α : Type} {x y : α} {below : List α} :
    y ∈ o.put x below ↔ y = x ∨ y ∈ below := by
  cases o
  · exact List.mem_cons
  · exact (List.mem_append.trans or_comm).trans (or_congr_left List.mem_singleton)

theorem forall₂_put {α β : Type} {R : α → β → Prop} {x : α} {y : β} {xs : List α} {ys : List β}
    (h : R x y) (hs : List.Forall₂ R xs ys) : List.Forall₂ R (o.put x xs) (o.put y ys) := by
  cases o
  · exact .cons h hs
  · exact List.rel_append hs (.cons h .nil)

end WalkOrder

/-! ## Walks and their trails -/

namespace Node

/-- The nodes from `n` on, each before or after what is below it. -/
def walk : WalkOrder → (Nat → Label → Bool) → Nat → Node → List (Nat × Node)
  | .before => preorder
  | .after => postorder

/-- The nodes from each of several on. -/
def walkAll : WalkOrder → (Nat → Label → Bool) → Nat → List Node → List (Nat × Node)
  | .before => preorderAll
  | .after => postorderAll

variable {o : WalkOrder} {stops : Nat → Label → Bool} {depth i : Nat} {p : List Nat}
  {label : Label} {loc : Location} {cs ns : List Node} {n : Node}

theorem walk_mk : walk o stops depth (.mk label loc cs) =
    o.put (depth, .mk label loc cs)
      (if stops depth label then [] else walkAll o stops (depth + 1) cs) := by
  cases o <;> rfl

theorem walkAll_nil : walkAll o stops depth [] = [] := by cases o <;> rfl

theorem walkAll_cons :
    walkAll o stops depth (n :: ns) = walk o stops depth n ++ walkAll o stops depth ns := by
  cases o <;> rfl

mutual

/-- The paths to the nodes that a walk lists. -/
def trail (o : WalkOrder) (stops : Nat → Label → Bool) (depth : Nat) : Node → List (List Nat)
  | .mk label _ cs => o.put [] (if stops depth label then [] else trailAll o stops (depth + 1) 0 cs)

/-- The paths to the nodes below several, of which the first is the child `i` of what is above. -/
def trailAll (o : WalkOrder) (stops : Nat → Label → Bool) (depth : Nat) :
    Nat → List Node → List (List Nat)
  | _, [] => []
  | i, n :: ns => (trail o stops depth n).map (i :: ·) ++ trailAll o stops depth (i + 1) ns

end

/-- A walk from `n` on lists the node that the path leads to, with its depth. -/
structure Listed (n : Node) (depth : Nat) (v : Nat × Node) (p : List Nat) : Prop where
  follow : n.follow? p = some v.2
  depth : v.1 = depth + p.length

/-- The same below several nodes, of which the first is the child `i` of what is above. -/
inductive ListedBelow (ns : List Node) (depth i : Nat) (v : Nat × Node) : List Nat → Prop where
  | mk {k : Nat} {c : Node} {p : List Nat} (hc : ns[k]? = some c) (h : c.Listed depth v p) :
      ListedBelow ns depth i v ((i + k) :: p)

mutual

/-- **A walk lists what its trail leads to**, each node with its depth. -/
theorem listed_walk (o : WalkOrder) (stops : Nat → Label → Bool) (depth : Nat) : ∀ n : Node,
    List.Forall₂ (n.Listed depth) (walk o stops depth n) (trail o stops depth n)
  | .mk label loc cs => by
      rw [walk_mk, trail]
      refine WalkOrder.forall₂_put ⟨rfl, rfl⟩ ?_
      split
      · exact .nil
      · refine (listed_walkAll o stops (depth + 1) 0 cs).imp ?_
        rintro v _ ⟨hc, h⟩
        refine ⟨?_, by rw [h.depth, List.length_cons]; omega⟩
        rw [follow?, Nat.zero_add, show (mk label loc cs).children[_]? = _ from hc]
        exact h.follow

theorem listed_walkAll (o : WalkOrder) (stops : Nat → Label → Bool) (depth i : Nat) :
    ∀ ns : List Node,
      List.Forall₂ (ListedBelow ns depth i) (walkAll o stops depth ns) (trailAll o stops depth i ns)
  | [] => by
      rw [walkAll_nil]
      exact .nil
  | n :: ns => by
      rw [walkAll_cons, trailAll]
      refine List.rel_append ?_ ?_
      · rw [List.forall₂_map_right_iff]
        exact (listed_walk o stops depth n).imp fun v p h => .mk (k := 0) rfl h
      · refine (listed_walkAll o stops depth (i + 1) ns).imp ?_
        rintro v _ ⟨hc, h⟩
        rw [Nat.add_right_comm, Nat.add_assoc]
        exact .mk (k := _ + 1) hc h

end

/-! ## Where a walk comes -/

theorem mem_trailAll : p ∈ trailAll o stops depth i ns ↔
    ∃ k c q, ns[k]? = some c ∧ q ∈ trail o stops depth c ∧ p = (i + k) :: q := by
  induction ns generalizing i with
  | nil => simp [trailAll]
  | cons n ns ih =>
    rw [trailAll, List.mem_append, List.mem_map, ih]
    constructor
    · rintro (⟨q, hq, rfl⟩ | ⟨k, c, q, hc, hq, rfl⟩)
      · exact ⟨0, n, q, rfl, hq, rfl⟩
      · exact ⟨k + 1, c, q, hc, hq, by rw [Nat.add_right_comm, Nat.add_assoc]⟩
    · rintro ⟨_ | k, c, q, hc, hq, rfl⟩
      · cases hc
        exact .inl ⟨q, hq, rfl⟩
      · exact .inr ⟨k, c, q, hc, hq, by rw [Nat.add_right_comm, Nat.add_assoc]⟩

/-- A walk from `n` on stops nowhere above the end of the path. -/
def Unstopped (stops : Nat → Label → Bool) (depth : Nat) (n : Node) (p : List Nat) : Prop :=
  ∀ q a, Above q p → n.follow? q = some a → stops (depth + q.length) a.label = false

theorem unstopped_nil : Unstopped stops depth n [] :=
  fun _ _ h => absurd (List.prefix_nil.mp h.1) h.2

theorem unstopped_cons {c : Node} (hc : n.children[i]? = some c) :
    Unstopped stops depth n (i :: p) ↔
      stops depth n.label = false ∧ Unstopped stops (depth + 1) c p := by
  have hfollow (q : List Nat) : n.follow? (i :: q) = c.follow? q := by rw [follow?, hc]
  constructor
  · intro h
    refine ⟨h [] n (above_nil_cons i p) rfl, fun q a hq ha => ?_⟩
    have := h (i :: q) a (hq.cons i) ((hfollow q).trans ha)
    rwa [List.length_cons, Nat.add_comm q.length, ← Nat.add_assoc] at this
  · rintro ⟨h, hs⟩ (_ | ⟨k, q⟩) a hq ha
    · cases ha
      exact h
    · obtain ⟨rfl, hpre⟩ := List.cons_prefix_cons.mp hq.1
      rw [List.length_cons, Nat.add_comm q.length, ← Nat.add_assoc]
      exact hs q a ⟨hpre, fun heq => hq.2 (congrArg _ heq)⟩ ((hfollow q).symm.trans ha)

/-- **A walk comes to every node above which it does not stop**, and to no other. -/
theorem mem_trail : p ∈ trail o stops depth n ↔
    (n.follow? p).isSome ∧ Unstopped stops depth n p := by
  induction p generalizing depth n with
  | nil =>
    obtain ⟨label, loc, cs⟩ := n
    rw [trail, WalkOrder.mem_put]
    exact iff_of_true (.inl rfl) ⟨rfl, unstopped_nil⟩
  | cons i p ih =>
    have hmem : i :: p ∈ trail o stops depth n ↔ stops depth n.label = false ∧
        ∃ c, n.children[i]? = some c ∧ p ∈ trail o stops (depth + 1) c := by
      obtain ⟨label, loc, cs⟩ := n
      simp only [trail, WalkOrder.mem_put, Node.label, Node.children]
      split <;> simp_all [mem_trailAll]
    rw [hmem, follow?]
    cases hc : n.children[i]? with
    | none => simp
    | some c => simp [ih, unstopped_cons hc, and_left_comm]

/-! ## The order of a trail -/

end Node

theorem WalkOrder.pairwise_put {o : WalkOrder} {ps : List (List Nat)} (h : ps.Pairwise o.Earlier)
    (hne : ∀ p ∈ ps, p ≠ []) : (o.put [] ps).Pairwise o.Earlier := by
  have habove : ∀ p ∈ ps, Above [] p := fun p hp => ⟨List.nil_prefix, (hne p hp).symm⟩
  cases o with
  | before => exact .cons (fun p hp => .inl (habove p hp)) h
  | after =>
    refine List.pairwise_append.mpr ⟨h, List.pairwise_singleton _ _, fun p hp q hq => ?_⟩
    cases List.mem_singleton.mp hq
    exact .inl (habove p hp)

namespace Node

variable {o : WalkOrder} {stops stops' : Nat → Label → Bool} {depth : Nat} {n : Node}

mutual

/-- **A trail is in order**, and so comes nowhere twice. -/
theorem trail_earlier (o : WalkOrder) (stops : Nat → Label → Bool) (depth : Nat) :
    ∀ n : Node, (trail o stops depth n).Pairwise o.Earlier
  | .mk label _ cs => by
      rw [trail]
      refine WalkOrder.pairwise_put ?_ ?_
      · split
        · exact .nil
        · exact trailAll_earlier o stops (depth + 1) 0 cs
      · intro p hp
        split at hp
        · cases hp
        · obtain ⟨k, c, q, -, -, rfl⟩ := mem_trailAll.mp hp
          exact List.cons_ne_nil _ _

theorem trailAll_earlier (o : WalkOrder) (stops : Nat → Label → Bool) (depth i : Nat) :
    ∀ ns : List Node, (trailAll o stops depth i ns).Pairwise o.Earlier
  | [] => .nil
  | n :: ns => by
      rw [trailAll]
      refine List.pairwise_append.mpr ⟨?_, trailAll_earlier o stops depth (i + 1) ns, ?_⟩
      · exact List.pairwise_map.mpr ((trail_earlier o stops depth n).imp fun h => h.cons i)
      · intro p hp q hq
        obtain ⟨p, -, rfl⟩ := List.mem_map.mp hp
        obtain ⟨k, c, q, -, -, rfl⟩ := mem_trailAll.mp hq
        exact .of_lt o (by omega) p q

end

mutual

/-- A walk that stops less often comes to more nodes, and to all in the same order. -/
theorem trail_sublist (hstops : ∀ d l, stops' d l = true → stops d l = true) (depth : Nat) :
    ∀ n : Node, (trail o stops depth n).Sublist (trail o stops' depth n)
  | .mk label _ cs => by
      have hbelow : (if stops depth label then [] else trailAll o stops (depth + 1) 0 cs).Sublist
          (if stops' depth label then [] else trailAll o stops' (depth + 1) 0 cs) := by
        by_cases h : stops depth label
        · rw [if_pos h]
          exact List.nil_sublist _
        · rw [if_neg h, if_neg (mt (hstops depth label) h)]
          exact trailAll_sublist hstops (depth + 1) 0 cs
      rw [trail, trail]
      cases o with
      | before => exact hbelow.cons_cons []
      | after => exact hbelow.append (List.Sublist.refl [[]])

theorem trailAll_sublist (hstops : ∀ d l, stops' d l = true → stops d l = true) (depth i : Nat) :
    ∀ ns : List Node, (trailAll o stops depth i ns).Sublist (trailAll o stops' depth i ns)
  | [] => List.Sublist.refl []
  | n :: ns => by
      rw [trailAll, trailAll]
      exact ((trail_sublist hstops depth n).map _).append
        (trailAll_sublist hstops depth (i + 1) ns)

end

theorem nodup_trail : (trail o stops depth n).Nodup :=
  (trail_earlier o stops depth n).imp WalkOrder.Earlier.ne

/-- Both orders come to the same nodes. -/
theorem trail_perm (o o' : WalkOrder) :
    (trail o stops depth n).Perm (trail o' stops depth n) :=
  (List.perm_ext_iff_of_nodup nodup_trail nodup_trail).mpr fun _ =>
    mem_trail.trans mem_trail.symm

/-- What is listed follows from the paths. -/
theorem map_some_of_listed {vs : List (Nat × Node)} {ps : List (List Nat)}
    (h : List.Forall₂ (n.Listed depth) vs ps) :
    vs.map some = ps.map fun p => (n.follow? p).map (depth + p.length, ·) := by
  induction h with
  | nil => rfl
  | cons h _ ih => rw [List.map_cons, List.map_cons, ih, h.follow, Option.map_some, ← h.depth]

/-- Both orders list the same nodes with the same depths. -/
theorem walk_perm (o o' : WalkOrder) :
    (walk o stops depth n).Perm (walk o' stops depth n) := by
  have htrails : (trail o stops depth n).Perm (trail o' stops depth n) := trail_perm o o'
  have h := htrails.map fun p => (n.follow? p).map (depth + p.length, ·)
  rw [← map_some_of_listed (listed_walk o stops depth n),
    ← map_some_of_listed (listed_walk o' stops depth n)] at h
  exact (List.map_perm_map_iff fun _ _ => Option.some.inj).mp h

/-! ## Visitors that list -/

theorem walkAll_eq_flatMap (depth : Nat) (ns : List Node) :
    walkAll o stops depth ns = ns.flatMap (walk o stops depth) := by
  induction ns with
  | nil => exact walkAll_nil
  | cons n ns ih => rw [walkAll_cons, List.flatMap_cons, ih]

end Node

/-- The visitor lists each node that accepts it, with its depth, before or after what the children
list that accept it in turn, and does not go on to them where it stops. -/
def Visitor.Lists (v : Visitor Nat (List (Nat × Node))) (o : WalkOrder)
    (stops : Nat → Label → Bool) : Prop :=
  ∀ (n : Node) (depth : Nat), n.accept v depth =
    o.put (depth, n) (if stops depth n.label then [] else
      n.children.flatMap fun c => c.accept v (depth + 1))

namespace Node

section Lists

variable {o : WalkOrder} {stops : Nat → Label → Bool} {v : Visitor Nat (List (Nat × Node))}

mutual

/-- **A visitor that lists what it comes to walks**, from whichever node accepts it. -/
theorem accept_of_lists (h : v.Lists o stops) (depth : Nat) :
    ∀ n : Node, n.accept v depth = walk o stops depth n
  | .mk label loc cs => by
      have hbelow : cs.flatMap (fun c => c.accept v (depth + 1)) = walkAll o stops (depth + 1) cs :=
        flatMap_accept_of_lists h (depth + 1) cs
      rw [h, walk_mk, Node.children, Node.label, hbelow]

theorem flatMap_accept_of_lists (h : v.Lists o stops) (depth : Nat) :
    ∀ ns : List Node, ns.flatMap (fun c => c.accept v depth) = walkAll o stops depth ns
  | [] => walkAll_nil.symm
  | n :: ns => by
      rw [List.flatMap_cons, walkAll_cons, accept_of_lists h depth n,
        flatMap_accept_of_lists h depth ns]

end

end Lists

/-- The visitor that handles every node by a walk from there on. -/
def lister (o : WalkOrder) (stops : Nat → Label → Bool) : Visitor Nat (List (Nat × Node)) :=
  .ofNode fun n depth => walk o stops depth n

/-- It is one that lists, so there are such visitors. -/
theorem lists_lister (o : WalkOrder) (stops : Nat → Label → Bool) :
    (lister o stops).Lists o stops := by
  rintro ⟨label, loc, cs⟩ depth
  simp only [lister, accept_ofNode, walk_mk, walkAll_eq_flatMap, Node.label, Node.children]

/-! ## The walks of visitors -/

/-- Where a walk stops that goes on below no node of these kinds, and below none at the limit. -/
def stopsAt (kinds : List String) (limit : Option Nat) (depth : Nat) (label : Label) : Bool :=
  kinds.contains label.name || limit.any (· ≤ depth)

/-- Where a walk over everything stops. -/
def never (_ : Nat) (_ : Label) : Bool := false

/-- Nodes below `n`, each with its depth, and the paths to them in the order of a walk. -/
structure ListedInOrder (o : WalkOrder) (n : Node) (nodes : List (Nat × Node))
    (paths : List (List Nat)) : Prop where
  listed : List.Forall₂ (n.Listed 0) nodes paths
  ordered : paths.Pairwise o.Earlier

/-- What a visitor lists is in the order of the trail. -/
theorem listedInOrder_trail {o : WalkOrder} {stops : Nat → Label → Bool}
    {v : Visitor Nat (List (Nat × Node))} (h : v.Lists o stops) (n : Node) :
    ListedInOrder o n (n.accept v 0) (trail o stops 0 n) := by
  rw [accept_of_lists h]
  exact ⟨listed_walk o stops 0 n, trail_earlier o stops 0 n⟩

/-- **Visitors that list before and after the children list the same nodes**, whatever visitors they
are: those of the whole walk above which there is none of the kinds and none at the limit, once
each. They keep the order of the whole walk, or come after all that is listed below them, and those
to the left still first. There are such visitors for all kinds and limits. -/
theorem walks_agree (n : Node) (kinds : List String) (limit : Option Nat) :
    (∀ o stops, (lister o stops).Lists o stops) ∧
    ∀ u v w : Visitor Nat (List (Nat × Node)), u.Lists .before never →
      v.Lists .before (stopsAt kinds limit) → w.Lists .after (stopsAt kinds limit) →
      ∃ whole before after : List (List Nat),
        ListedInOrder .before n (n.accept u 0) whole ∧
          (∀ p, p ∈ whole ↔ (n.follow? p).isSome) ∧
        ListedInOrder .before n (n.accept v 0) before ∧
          before.Sublist whole ∧
          (∀ p ∈ whole, p ∈ before ↔ ∀ q a, Above q p → n.follow? q = some a →
            a.label.name ∉ kinds ∧ ∀ m ∈ limit, q.length < m) ∧
        ListedInOrder .after n (n.accept w 0) after ∧
          after.Perm before ∧
          (n.accept w 0).Perm (n.accept v 0) := by
  refine ⟨lists_lister, fun u v w hu hv hw => ?_⟩
  have hwhole (p : List Nat) : p ∈ trail .before never 0 n ↔ (n.follow? p).isSome :=
    mem_trail.trans (and_iff_left fun _ _ _ _ => rfl)
  refine ⟨trail .before never 0 n, trail .before (stopsAt kinds limit) 0 n,
    trail .after (stopsAt kinds limit) 0 n, listedInOrder_trail hu n, hwhole,
    listedInOrder_trail hv n, trail_sublist (fun _ _ h => absurd h Bool.false_ne_true) 0 n,
    fun p hp => ?_, listedInOrder_trail hw n, trail_perm .after .before, ?_⟩
  · rw [mem_trail, and_iff_right ((hwhole p).mp hp)]
    refine forall₂_congr fun q a => forall₂_congr fun _ _ => ?_
    cases limit <;> simp [stopsAt]
  · rw [accept_of_lists hw, accept_of_lists hv]
    exact walk_perm .after .before

/-- In `if (a) b` neither order comes to the name in the condition if both stop at conditions. -/
theorem walks_agree_of_condition :
    let a : Node := .mk (.identifier "a" false) ⟨1, 5⟩ []
    let b : Node := .mk (.identifier "b" false) ⟨1, 8⟩ []
    let cond : Node := .mk .condition ⟨1, 5⟩ [.mk .expression ⟨1, 5⟩ [a]]
    let body : Node := .mk .expression ⟨1, 8⟩ [b]
    let n : Node := .mk .ifForm ⟨1, 1⟩ [cond, body]
    (lister .before (stopsAt ["Condition"] none)).Lists .before (stopsAt ["Condition"] none) ∧
      (lister .after (stopsAt ["Condition"] none)).Lists .after (stopsAt ["Condition"] none) ∧
      [(1, cond), (2, b), (1, body), (0, n)].Perm [(0, n), (1, cond), (1, body), (2, b)] := by
  intro a b cond body n
  obtain ⟨hlists, hall⟩ := walks_agree n ["Condition"] none
  have hbefore := hlists .before (stopsAt ["Condition"] none)
  have hafter := hlists .after (stopsAt ["Condition"] none)
  obtain ⟨_, _, _, -, -, -, -, -, -, -, hperm⟩ := hall _ _ _ (hlists .before never) hbefore hafter
  exact ⟨hbefore, hafter, hperm⟩

end Node

end RSource
