import RSource.Node.Walk
import RSource.Proofs.Order
import RSource.Proofs.Yield

/-!
# Places of nodes

* `Program.nodes` — the nodes of a program in pre-order.
* `Program.anchors` — for each node the token whose place it takes, by its number among those that
  are part of an expression. It is read off the tree and not off the places in it.
* `Node.places`, `Item.places` — the labels with their places, by the nodes and by the items.
* `Program.places_items` — both are the same.
* `nodes_stand_at_tokens` — **every node stands at its token**, and in pre-order the places never
  go back.
-/

namespace RSource

/-! ## Nodes and anchors -/

/-- The nodes of a program in pre-order. -/
def Program.nodes (p : Program) : List Node :=
  (p.node.preorder (fun _ _ => false) 0).map (·.2)

/-- The nodes that the marks in some items stand for, each with the number of the token behind the
mark. `n` tokens stand before the items. -/
def Item.anchors (n : Nat) : List Item → List (Label × Nat)
  | [] => []
  | .mark label _ :: is => (label, n) :: anchors n is
  | .token _ _ :: is => anchors (n + 1) is
  | .closeElement :: is => anchors (n + 2) is
  | .lineBreak :: is => anchors n is

/-- The nodes of a program, each with the number of the token whose place it takes. -/
def Program.anchors (p : Program) : List (Label × Nat) := Item.anchors 0 p.items

/-! ## Labels with their places -/

/-- The marks in some items. -/
def Item.places : List Item → List (Label × Location)
  | [] => []
  | .mark label loc :: is => (label, loc) :: places is
  | .token _ _ :: is | .closeElement :: is | .lineBreak :: is => places is

mutual

/-- The labels and places from a node on in pre-order. -/
def Node.places : Node → List (Label × Location)
  | .mk label loc cs => (label, loc) :: Node.placesAll cs

/-- The labels and places from each of several nodes on. -/
def Node.placesAll : List Node → List (Label × Location)
  | [] => []
  | n :: ns => Node.places n ++ Node.placesAll ns

end

mutual

theorem Node.preorder_places (depth : Nat) : ∀ n : Node,
    (n.preorder (fun _ _ => false) depth).map (fun v => (v.2.label, v.2.loc)) = n.places
  | .mk label loc cs => by
      rw [Node.preorder, if_neg Bool.false_ne_true, List.map_cons,
        Node.preorderAll_places (depth + 1) cs]
      rfl

theorem Node.preorderAll_places (depth : Nat) : ∀ ns : List Node,
    (Node.preorderAll (fun _ _ => false) depth ns).map (fun v => (v.2.label, v.2.loc)) =
      Node.placesAll ns
  | [] => rfl
  | n :: ns => by
      simp [Node.preorderAll, Node.placesAll, Node.preorder_places depth n,
        Node.preorderAll_places depth ns]

end

@[simp] theorem Node.placesAll_append (ms ns : List Node) :
    placesAll (ms ++ ns) = placesAll ms ++ placesAll ns := by
  induction ms with
  | nil => rfl
  | cons m ms ih => simp [placesAll, ih]

namespace Item

@[simp] theorem places_append (is js : List Item) : places (is ++ js) = places is ++ places js := by
  induction is with
  | nil => rfl
  | cons i is ih => cases i <;> simp [places, ih]

@[simp] theorem places_marks (loc : Location) (labels : List Label) :
    places (marks loc labels) = labels.map (·, loc) := by
  induction labels with
  | nil => rfl
  | cons l ls ih => exact congrArg _ ih

@[simp] theorem places_word (k : TokenKind) (is : List Item) :
    places (.word k :: is) = places is := rfl

@[simp] theorem places_close (kind : Brackets) : places [close kind] = [] := by cases kind <;> rfl

@[simp] theorem places_blockBreak (es : List Expression) : places (blockBreak es) = [] := by
  cases es <;> rfl

end Item

theorem Identifier.places_items (i : Identifier) : Item.places i.items = i.node.places := rfl

theorem Constant.places_items (c : Constant) : Item.places c.items = c.node.places := rfl

theorem ArgName.places_items (n : ArgName) : Item.places n.items = n.node.places := by
  cases n <;> rfl

/-- The node around some calls and subscripts is marked at the place of the first. -/
def Item.groupsPlaces (around : List Label) : List Group → List (Label × Location)
  | [] => []
  | g :: _ => around.map (·, g.loc)

theorem Item.groupsPlaces_nil (gs : List Group) : groupsPlaces [] gs = [] := by cases gs <;> rfl

theorem Node.placesAll_groups (gs : List Group) (nodes : List Node) (h : gs = [] → nodes = []) :
    placesAll (Node.groups gs nodes) =
      Item.groupsPlaces (Item.aroundGroups gs) gs ++ placesAll nodes := by
  cases gs with
  | nil => rw [h rfl]; rfl
  | cons g gs => simp [Node.groups, placesAll, places, Item.groupsPlaces, Item.aroundGroups]

theorem Node.placesAll_formals (fs : List Formal) (nodes : List Node) (h : fs = [] → nodes = []) :
    placesAll (Node.formals fs nodes) = Item.places (Item.formals fs) ++ placesAll nodes := by
  cases fs with
  | nil => rw [h rfl]; rfl
  | cons f fs => simp [Node.formals, placesAll, places, Item.formals, Item.places]

theorem Node.placesAll_arguments (loc : Location) (slots : List Argument) (nodes : List Node)
    (h : slots = [] → nodes = []) :
    placesAll (Node.arguments loc slots nodes) =
      (Item.aroundArguments slots).map (·, loc) ++ placesAll nodes := by
  cases slots with
  | nil => rw [h rfl]; rfl
  | cons a as =>
      cases as with
      | nil => cases a <;> simp [Node.arguments, Item.aroundArguments, placesAll, places]
      | cons b bs => simp [Node.arguments, Item.aroundArguments, placesAll, places]

/-! ## The marks of a tree are its nodes -/

mutual

theorem Expression.places_items : ∀ e : Expression, Item.places e.items = e.node.places
  | .term loc t => by
      simp [Expression.items, Expression.node, Item.places, Node.places, Term.places_items t]
  | .unary loc op t => by
      simp [Expression.items, Expression.node, Item.places, Node.places, Term.places_items t]
  | .binary loc op l r => by
      simp [Expression.items, Expression.node, Item.places, Node.places, Term.places_items l,
        Term.places_items r]
  | .assign loc l opLoc op v => by
      simp [Expression.items, Expression.node, Item.places, Node.places, Node.placesAll,
        Term.places_items l, Expression.places_items v]

theorem Term.places_items : ∀ t : Term, Item.places t.items = Node.placesAll t.nodes
  | .mk o gs => by
      have hnil : gs = [] → groupNodes gs = [] := by rintro rfl; rfl
      simp [Term.items, Term.nodes, Node.placesAll, Operand.places_items o,
        groupItems_places (Item.aroundGroups gs) gs, Node.placesAll_groups gs _ hnil]

theorem Operand.places_items : ∀ o : Operand, Item.places o.items = o.node.places
  | .identifier i => i.places_items
  | .constant c => c.places_items
  | .block loc es close => by
      simp [Operand.items, Operand.node, Item.places, Node.places, Node.placesAll,
        statementItems_places es]
  | .function loc fs e => by
      have hnil : fs = [] → formalNodes fs = [] := by rintro rfl; rfl
      simp [Operand.items, Operand.node, Item.places, Node.places, Node.placesAll,
        formalItems_places [] rfl fs, Expression.places_items e, Node.placesAll_formals fs _ hnil]
  | .ifThen loc c e => by
      simp [Operand.items, Operand.node, Item.places, Node.places, Node.placesAll,
        Expression.places_items c, Expression.places_items e]
  | .ifElse loc c e o => by
      simp [Operand.items, Operand.node, Item.places, Node.places, Node.placesAll,
        Expression.places_items c, Expression.places_items e, Expression.places_items o]
  | .forLoop loc i s e => by
      simp [Operand.items, Operand.node, Item.places, Node.places, Node.placesAll,
        i.places_items, Expression.places_items s, Expression.places_items e]
  | .whileLoop loc c e => by
      simp [Operand.items, Operand.node, Item.places, Node.places, Node.placesAll,
        Expression.places_items c, Expression.places_items e]
  | .repeatLoop loc e | .help loc e => by
      simp [Operand.items, Operand.node, Item.places, Node.places, Node.placesAll,
        Expression.places_items e]
  | .paren e => by
      simp [Operand.items, Operand.node, Item.places, Expression.places_items e]
  | .nested e => Expression.places_items e

theorem Group.places_items (around : List Label) : ∀ g : Group,
    Item.places (g.items around) = around.map (·, g.loc) ++ g.node.places
  | .mk loc kind slots => by
      have hnil : slots = [] → argumentNodes slots = [] := by rintro rfl; rfl
      simp [Group.items, Group.node, Group.loc, Node.places, argumentItems_places [] rfl slots,
        Node.placesAll_arguments loc slots _ hnil]

theorem Argument.places_items : ∀ a : Argument, Item.places a.items = Node.placesAll a.nodes
  | .empty => rfl
  | .value e => by
      simp [Argument.items, Argument.nodes, Node.placesAll, Expression.places_items e]
  | .name n => by
      simp [Argument.items, Argument.nodes, Item.places, Node.placesAll, n.places_items]
  | .named n e => by
      simp [Argument.items, Argument.nodes, Node.placesAll, n.places_items,
        Expression.places_items e]

theorem Formal.places_items : ∀ f : Formal, Item.places f.items = Node.placesAll f.nodes
  | .required i => by simp [Formal.items, Formal.nodes, Node.placesAll, i.places_items]
  | .defaulted i e => by
      simp [Formal.items, Formal.nodes, Node.placesAll, i.places_items, Expression.places_items e]

theorem statementItems_places : ∀ es : List Expression,
    Item.places (statementItems es) = Node.placesAll (expressionNodes es)
  | [] => rfl
  | e :: es => by
      simp [statementItems, expressionNodes, Item.places, Node.placesAll,
        Expression.places_items e, statementItems_places es]

theorem groupItems_places (around : List Label) : ∀ gs : List Group,
    Item.places (groupItems around gs) =
      Item.groupsPlaces around gs ++ Node.placesAll (groupNodes gs)
  | [] => rfl
  | g :: gs => by
      rw [groupItems, groupNodes, Item.places_append, Group.places_items around g,
        groupItems_places [] gs, Item.groupsPlaces_nil]
      simp [Node.placesAll, Item.groupsPlaces]

theorem argumentItems_places (before : List Item) (h : Item.places before = []) :
    ∀ as : List Argument,
      Item.places (argumentItems before as) = Node.placesAll (argumentNodes as)
  | [] => rfl
  | a :: as => by
      simp [argumentItems, argumentNodes, h, Argument.places_items a,
        argumentItems_places [.word .comma] rfl as]

theorem formalItems_places (before : List Item) (h : Item.places before = []) :
    ∀ fs : List Formal, Item.places (formalItems before fs) = Node.placesAll (formalNodes fs)
  | [] => rfl
  | f :: fs => by
      simp [formalItems, formalNodes, h, Formal.places_items f,
        formalItems_places [.word .comma] rfl fs]

end

/-- The marks of a program are its nodes. -/
theorem Program.places_items {p : Program} (h : p.statements ≠ []) :
    Item.places p.items = p.nodes.map (fun n => (n.label, n.loc)) := by
  have hitems : p.items = .mark .program p.loc :: statementItems p.statements := by
    unfold items
    split
    · rename_i hnil
      exact absurd hnil h
    · rfl
  have hnodes : p.nodes.map (fun n => (n.label, n.loc)) = p.node.places := by
    rw [← Node.preorder_places 0 p.node, nodes, List.map_map]
    rfl
  rw [hitems, hnodes, node, Item.places, Node.places, statementItems_places]

/-! ## Places of tokens -/

/-- Each mark stands at the token with its number. -/
theorem Fits.anchors {is : List Item} {ts : List Token} (h : Fits is ts) (before : List Token) :
    (Item.places is).map (fun m => (m.1, some m.2)) =
      (Item.anchors before.length is).map
        (fun a => (a.1, ((before ++ ts)[a.2]?).map Token.loc)) := by
  induction h generalizing before with
  | nil => rfl
  | mark h ih =>
      rw [Item.places, Item.anchors, List.map_cons, List.map_cons, ih before]
      simp
  | @token kind text is t ts ht h ih =>
      have ih := ih (before ++ [t])
      simpa [Item.places, Item.anchors] using ih
  | @closeElement is t u ts ht hu h ih =>
      have ih := ih (before ++ [t, u])
      simpa [Item.places, Item.anchors] using ih
  | lineBreak h ih => exact ih before

theorem Fits.mem_of_place {is : List Item} {ts : List Token} (h : Fits is ts) :
    ∀ m ∈ Item.places is, ∃ t ∈ ts, t.loc = m.2 := by
  induction h with
  | nil => simp [Item.places]
  | @mark label is t ts h ih =>
      intro m hm
      rcases List.mem_cons.mp hm with rfl | hm
      · exact ⟨t, List.mem_cons_self .., rfl⟩
      · exact ih m hm
  | token ht h ih =>
      intro m hm
      obtain ⟨u, hu, hloc⟩ := ih m hm
      exact ⟨u, List.mem_cons_of_mem _ hu, hloc⟩
  | closeElement ht hu h ih =>
      intro m hm
      obtain ⟨u, hu, hloc⟩ := ih m hm
      exact ⟨u, List.mem_cons_of_mem _ (List.mem_cons_of_mem _ hu), hloc⟩
  | lineBreak h ih => exact ih

/-- Where tokens stand in order, so do the marks. -/
theorem Fits.sorted {is : List Item} {ts : List Token} (h : Fits is ts)
    (hs : ts.Pairwise (fun t u => t.loc ≤ u.loc)) :
    (Item.places is).Pairwise (fun m n => m.2 ≤ n.2) := by
  induction h with
  | nil => exact List.Pairwise.nil
  | @mark label is t ts h ih =>
      refine List.pairwise_cons.mpr ⟨fun m hm => ?_, ih hs⟩
      obtain ⟨u, hu, hloc⟩ := h.mem_of_place m hm
      rw [← hloc]
      rcases List.mem_cons.mp hu with rfl | hu
      · exact Location.le_refl _
      · exact List.rel_of_pairwise_cons hs hu
  | token ht h ih => exact ih (List.pairwise_cons.mp hs).2
  | closeElement ht hu h ih => exact ih (List.pairwise_cons.mp (List.pairwise_cons.mp hs).2).2
  | lineBreak h ih => exact ih hs

/-- **Every node stands at its token.** In an accepted source of less than 2³² - 1 bytes each node
has the place of the token that its anchor numbers among those that are read off the tree, the node
of an empty program has the first place of all, and in pre-order the places of the nodes never go
back. -/
theorem nodes_stand_at_tokens {bytes : List UInt8} {p : Program}
    (hn : bytes.length < UInt32.size - 1) (h : parse bytes = .ok p) :
    ∃ ts, lex bytes = .ok ts ∧ p.yield = (significant ts).map Token.code ∧
      (p.statements ≠ [] → p.nodes.map (fun n => (n.label, some n.loc)) =
        p.anchors.map (fun a => (a.1, ((significant ts)[a.2]?).map Token.loc))) ∧
      (p.statements = [] → p.node = .mk .program ⟨1, 1⟩ []) ∧
      p.nodes.Pairwise (fun m n => m.loc ≤ n.loc) := by
  obtain ⟨text, ts, htext, hts, hf, -⟩ := fits_of_parse h
  have hlex : lex bytes = .ok ts := by rw [lex, htext]; exact hts
  have hlen := length_le_of_decodeSource htext
  have hsorted := (lexText_sorted hts (by omega)).sublist
    (List.filter_sublist (p := fun t : Token => !t.kind.isLayout))
  refine ⟨ts, hlex, hf.codes, ?_, ?_, ?_⟩
  · intro hne
    have ha := hf.anchors []
    rw [Program.places_items hne, List.map_map] at ha
    exact ha
  · intro hnil
    rw [Program.node, Program.loc, hnil]
    rfl
  · by_cases hne : p.statements = []
    · have hnode : p.nodes = [.mk .program .start []] := by
        rw [Program.nodes, Program.node, Program.loc, hne]
        rfl
      rw [hnode]
      exact List.pairwise_singleton _ _
    · have hp := hf.sorted hsorted
      rw [Program.places_items hne, List.pairwise_map] at hp
      exact hp

/-- An empty call stands at its closing parenthesis, behind the line feed. -/
theorem nodes_stand_at_tokens_of_empty_call :
    let p : Program :=
      ⟨[.term ⟨1, 1⟩ (.mk (.identifier ⟨⟨1, 1⟩, "f", false⟩) [.mk ⟨2, 1⟩ .call []])]⟩
    ∃ ts, lex "f(\n)".toUTF8.data.toList = .ok ts ∧
      p.yield = (significant ts).map Token.code ∧
      (p.statements ≠ [] → p.nodes.map (fun n => (n.label, some n.loc)) =
        p.anchors.map (fun a => (a.1, ((significant ts)[a.2]?).map Token.loc))) ∧
      (p.statements = [] → p.node = .mk .program ⟨1, 1⟩ []) ∧
      p.nodes.Pairwise (fun m n => m.loc ≤ n.loc) :=
  nodes_stand_at_tokens (by decide) (by rfl)

end RSource
