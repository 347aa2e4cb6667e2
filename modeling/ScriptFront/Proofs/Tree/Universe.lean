import ScriptFront.Tree.Walk

/-! # The nodes of a tree

A tree is its root and the trees of its children. So a property of all nodes of a tree is one of
its root and of all nodes of the trees below.
-/

namespace ScriptFront

theorem Expr.universeAll_eq (es : List Expr) : Expr.universeAll es = es.flatMap Expr.universe := by
  induction es with
  | nil => rfl
  | cons e es ih => rw [Expr.universeAll, ih, List.flatMap_cons]

theorem Stmt.universeAll_eq (ss : List Stmt) : Stmt.universeAll ss = ss.flatMap Stmt.universe := by
  induction ss with
  | nil => rfl
  | cons s ss ih => rw [Stmt.universeAll, ih, List.flatMap_cons]

namespace Node

theorem flatMap_universe_expr (es : List Expr) :
    (es.map Node.expr).flatMap Node.universe = (es.flatMap Expr.universe).map .expr := by
  induction es with
  | nil => rfl
  | cons e es ih => simp [ih, Node.universe]

theorem flatMap_universe_stmt (ss : List Stmt) :
    (ss.map Node.stmt).flatMap Node.universe = ss.flatMap Stmt.universe := by
  induction ss with
  | nil => rfl
  | cons s ss ih => simp [ih, Node.universe]

theorem universe_eq (n : Node) : n.universe = n :: n.children.flatMap Node.universe := by
  cases n with
  | expr e =>
    rw [children, flatMap_universe_expr]
    cases e <;> simp [Node.universe, Expr.universe, Expr.children, Expr.universeAll_eq]
  | stmt s =>
    cases s with
    | block brace body =>
      simp [Node.universe, children, Stmt.universe, Stmt.universeAll_eq, flatMap_universe_stmt]
    | function name params body =>
      simp [Node.universe, children, Stmt.universe, Stmt.universeAll_eq, flatMap_universe_stmt]
    | conditional keyword condition thenBranch elseBranch =>
      cases elseBranch <;> simp [Node.universe, children, Stmt.universe]
    | define name initial => cases initial <;> simp [Node.universe, children, Stmt.universe]
    | leave keyword value => cases value <;> simp [Node.universe, children, Stmt.universe]
    | _ => simp [Node.universe, children, Stmt.universe]

/-- The property holds of the node and of all below it. -/
def Everywhere (P : Node → Prop) (n : Node) : Prop := ∀ m ∈ n.universe, P m

theorem everywhere_iff {P : Node → Prop} {n : Node} :
    n.Everywhere P ↔ P n ∧ ∀ child ∈ n.children, child.Everywhere P := by
  rw [Everywhere, universe_eq]
  simp only [List.mem_cons, forall_eq_or_imp, List.mem_flatMap]
  constructor
  · rintro ⟨hn, hc⟩
    exact ⟨hn, fun child hchild m hm => hc m ⟨child, hchild, hm⟩⟩
  · rintro ⟨hn, hc⟩
    refine ⟨hn, ?_⟩
    rintro m ⟨child, hchild, hm⟩
    exact hc child hchild m hm

theorem length_universe_lt {n child : Node} (h : child ∈ n.children) :
    child.universe.length < n.universe.length := by
  have hsub := List.sublist_flatten_of_mem (List.mem_map_of_mem (f := Node.universe) h)
  rw [universe_eq n, List.length_cons]
  exact Nat.lt_succ_of_le hsub.length_le

/-- To prove something of any tree, prove it of a node from its children. -/
theorem child_induction {motive : Node → Prop}
    (h : ∀ n : Node, (∀ child ∈ n.children, motive child) → motive n) (n : Node) : motive n :=
  h n fun child _ => child_induction h child
termination_by n.universe.length
decreasing_by exact length_universe_lt ‹_›

end Node

end ScriptFront
