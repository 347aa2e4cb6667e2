import ScriptFront.Proofs.Correspondence.Basic
import ScriptFront.Proofs.Tree.Universe

/-! # The tokens of a tree

The tokens that a node itself keeps, and the one it is attributed to. Nodes that correspond keep
tokens that correspond, and so do their children.
-/

namespace ScriptFront

theorem exists_mem_of_forall₂ {α β : Type} {S : α → β → Prop} {as : List α} {bs : List β}
    (h : List.Forall₂ S as bs) {a : α} (ha : a ∈ as) : ∃ b ∈ bs, S a b := by
  induction h with
  | nil => cases ha
  | @cons _ b _ bs hs _ ih =>
    rcases List.mem_cons.mp ha with rfl | ha
    · exact ⟨b, List.mem_cons_self, hs⟩
    · obtain ⟨b', hb, hs'⟩ := ih ha
      exact ⟨b', List.mem_cons_of_mem b hb, hs'⟩

theorem map_eq_of_forall₂ {α β γ : Type} {S : α → β → Prop} {f : α → γ} {g : β → γ} {as : List α}
    {bs : List β} (h : List.Forall₂ S as bs) (hf : ∀ a ∈ as, ∀ b, S a b → f a = g b) :
    as.map f = bs.map g := by
  induction h with
  | nil => rfl
  | cons hs _ ih =>
    rw [List.forall_mem_cons] at hf
    rw [List.map_cons, List.map_cons, hf.1 _ hs, ih hf.2]

def Expr.tokens : Expr → List Token
  | .assign name _ => [name]
  | .binary _ op _ | .logical _ op _ => [op]
  | .grouping _ => []
  | .literal token _ => [token]
  | .unary op _ => [op]
  | .reference token => [token]
  | .call _ paren _ => [paren]

def Stmt.tokens : Stmt → List Token
  | .block brace _ => [brace]
  | .expression _ => []
  | .conditional keyword _ _ _ => [keyword]
  | .print keyword _ => [keyword]
  | .define name _ => [name]
  | .loop keyword _ _ => [keyword]
  | .function name params _ => name :: params
  | .leave keyword _ => [keyword]

namespace Node

/-- The tokens that the node keeps, without those of its children. -/
def tokens : Node → List Token
  | .expr e => e.tokens
  | .stmt s => s.tokens

/-- A node is attributed to a token that it keeps, or to that of its only child. -/
theorem base_mem_or (n : Node) :
    n.base ∈ n.tokens ∨ ∃ child ∈ n.children, n.base = child.base := by
  cases n with
  | expr e =>
    cases e with
    | grouping inner => exact .inr ⟨.expr inner, by simp [children, Expr.children], rfl⟩
    | _ => exact .inl (by simp [tokens, Expr.tokens, base, Expr.base])
  | stmt s =>
    cases s with
    | expression value => exact .inr ⟨.expr value, by simp [children], rfl⟩
    | _ => exact .inl (by simp [tokens, Stmt.tokens, base, Stmt.base])

theorem Everywhere.base {P : Token → Prop} {n : Node}
    (h : n.Everywhere fun m => ∀ t ∈ m.tokens, P t) : n.Everywhere fun m => P m.base := by
  induction n using child_induction with
  | h n ih =>
    obtain ⟨hn, hc⟩ := everywhere_iff.mp h
    have hchildren : ∀ child ∈ n.children, child.Everywhere fun m => P m.base :=
      fun child hm => ih child hm (hc child hm)
    refine everywhere_iff.mpr ⟨?_, hchildren⟩
    rcases base_mem_or n with hb | ⟨child, hm, hb⟩
    · exact hn _ hb
    · rw [hb]
      exact (everywhere_iff.mp (hchildren child hm)).1

variable {R : Token → Token → Prop} {n n' : Node}

inductive Alike (R : Token → Token → Prop) : Node → Node → Prop where
  | expr {e e' : Expr} (h : e.Alike R e') : Alike R (.expr e) (.expr e')
  | stmt {s s' : Stmt} (h : s.Alike R s') : Alike R (.stmt s) (.stmt s')

theorem forall₂_expr {es es' : List Expr} (h : List.Forall₂ (Expr.Alike R) es es') :
    List.Forall₂ (Alike R) (es.map .expr) (es'.map .expr) :=
  List.rel_map (fun _ _ he => .expr he) h

theorem forall₂_stmt {ss ss' : List Stmt} (h : List.Forall₂ (Stmt.Alike R) ss ss') :
    List.Forall₂ (Alike R) (ss.map .stmt) (ss'.map .stmt) :=
  List.rel_map (fun _ _ hs => .stmt hs) h

theorem Alike.tokens (h : n.Alike R n') : List.Forall₂ R n.tokens n'.tokens := by
  cases h with
  | expr h => cases h <;> simp_all [Node.tokens, Expr.tokens]
  | stmt h => cases h <;> simp_all [Node.tokens, Stmt.tokens]

theorem Alike.children (h : n.Alike R n') :
    List.Forall₂ (Alike R) n.children n'.children := by
  cases h with
  | expr h =>
    refine forall₂_expr ?_
    cases h <;> simp_all [Expr.children]
  | stmt h =>
    cases h with
    | block _ hb => exact forall₂_stmt hb
    | expression he => exact .cons (.expr he) .nil
    | conditional _ hc ht he =>
      refine .cons (.expr hc) (.cons (.stmt ht) (forall₂_stmt ?_))
      cases he with
      | none => exact .nil
      | some he => exact .cons he .nil
    | print _ he => exact .cons (.expr he) .nil
    | define _ hi =>
      refine forall₂_expr ?_
      cases hi with
      | none => exact .nil
      | some hi => exact .cons hi .nil
    | loop _ hc hb => exact .cons (.expr hc) (.cons (.stmt hb) .nil)
    | function _ _ hb => exact forall₂_stmt hb
    | leave _ hv =>
      refine forall₂_expr ?_
      cases hv with
      | none => exact .nil
      | some hv => exact .cons hv .nil

theorem Alike.everywhere (h : n.Alike R n') :
    n.Everywhere fun m => ∀ t ∈ m.tokens, ∃ u, R t u := by
  induction n using child_induction generalizing n' with
  | h n ih =>
    refine everywhere_iff.mpr ⟨fun t ht => ?_, fun child hm => ?_⟩
    · obtain ⟨u, -, hu⟩ := exists_mem_of_forall₂ h.tokens ht
      exact ⟨u, hu⟩
    · obtain ⟨child', -, hc⟩ := exists_mem_of_forall₂ h.children hm
      exact ih child hm hc

end Node

end ScriptFront
