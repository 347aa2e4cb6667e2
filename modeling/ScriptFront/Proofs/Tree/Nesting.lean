import ScriptFront.Proofs.Tree.Shown

/-! # Outlines nest as trees do

A node, its children and all nodes below it are listed by three definitions that know nothing of
each other: the outline, the children and the universe. They describe the same tree. The records
inside an outline are the outlines of the children, in their order, and the records nested in it at
any depth are the outlines of all nodes of the tree, in theirs.
-/

namespace ScriptFront

namespace Outline

def isRecord : Outline → Bool
  | .record _ => true
  | _ => false

/-- The records that a part of a record holds: itself, or those it lists. -/
def records : Outline → List Outline
  | .record fields => [.record fields]
  | .list items => items.filter isRecord
  | _ => []

@[simp]
theorem records_int (n : Int) : (int n).records = [] := rfl

@[simp]
theorem records_text (b : Bytes) : (text b).records = [] := rfl

@[simp]
theorem records_value (v : Value) : (value v).records = [] := rfl

def recordsAt (o : Outline) (f : Field) : List Outline := ((o.get? f).map records).getD []

@[simp]
theorem recordsAt_nil (f : Field) : (record []).recordsAt f = [] := rfl

@[simp]
theorem recordsAt_cons (f g : Field) (part : Outline) (fields : List (Field × Outline)) :
    (record ((g, part) :: fields)).recordsAt f =
      if f = g then part.records else (record fields).recordsAt f := by
  by_cases h : f = g
  · simp [recordsAt, get?, h]
  · have hb : (f == g) = false := by simp [h]
    simp [recordsAt, get?, List.lookup_cons, h, hb]

/-- The fields that hold records, in the order in which a node is read. -/
def partFields : List Field :=
  [.callee, .left, .condition, .thenBranch, .elseBranch, .value, .expr, .initial, .right, .args,
    .stmts, .body]

/-- The records directly inside a record. -/
def parts (o : Outline) : List Outline := partFields.flatMap o.recordsAt

theorem sizeOf_le_of_mem_records {o part : Outline} (h : part ∈ o.records) :
    sizeOf part ≤ sizeOf o := by
  cases o with
  | record fields =>
    rw [List.mem_singleton.mp h]
  | list items =>
    have hlt := List.sizeOf_lt_of_mem (List.mem_of_mem_filter h)
    simp only [list.sizeOf_spec]
    omega
  | int | text | value => cases h

theorem sizeOf_lt_of_get? {o part : Outline} {f : Field} (h : o.get? f = some part) :
    sizeOf part < sizeOf o := by
  cases o with
  | record fields =>
    obtain ⟨before, after, rfl, -⟩ := List.lookup_eq_some_iff.mp h
    have hmem : (f, part) ∈ before ++ (f, part) :: after := by simp
    have hlt := List.sizeOf_lt_of_mem hmem
    simp only [record.sizeOf_spec, Prod.mk.sizeOf_spec] at hlt ⊢
    omega
  | int | text | value | list => cases h

theorem sizeOf_lt_of_mem_parts {o part : Outline} (h : part ∈ o.parts) :
    sizeOf part < sizeOf o := by
  obtain ⟨f, -, hf⟩ := List.mem_flatMap.mp h
  rw [recordsAt] at hf
  cases hg : o.get? f with
  | none => simp [hg] at hf
  | some held =>
    have hmem : part ∈ held.records := by simpa [hg] using hf
    have hle := sizeOf_le_of_mem_records hmem
    have hlt := sizeOf_lt_of_get? hg
    omega

/-- A record and all records nested in it, each before those inside it. -/
def nested (o : Outline) : List Outline := o :: o.parts.attach.flatMap fun part => nested part.1
termination_by sizeOf o
decreasing_by exact sizeOf_lt_of_mem_parts part.2

theorem nested_eq (o : Outline) : o.nested = o :: o.parts.flatMap nested := by
  rw [nested]
  simp

end Outline

open Outline

namespace Node

theorem isRecord_outline (n : Node) : n.outline.isRecord = true := by
  cases n with
  | expr e => cases e <;> rfl
  | stmt s =>
    cases s with
    | conditional keyword condition thenBranch elseBranch => cases elseBranch <;> rfl
    | _ => rfl

theorem records_outline (n : Node) : n.outline.records = [n.outline] := by
  have h := n.isRecord_outline
  cases ho : n.outline with
  | record fields => rfl
  | int | text | value | list => simp [ho, isRecord] at h

theorem records_list_outline (ns : List Node) :
    (Outline.list (ns.map outline)).records = ns.map outline := by
  refine List.filter_eq_self.mpr fun o ho => ?_
  obtain ⟨n, -, rfl⟩ := List.mem_map.mp ho
  exact n.isRecord_outline

end Node

/-! ### The parts of an outline -/

section Parts

attribute [local simp] partFields kindOf lineOf nameOf opOf

@[local simp]
theorem Expr.records_outline (e : Expr) : e.outline.records = [e.outline] :=
  (Node.expr e).records_outline

@[local simp]
theorem Stmt.records_outline (s : Stmt) : s.outline.records = [s.outline] :=
  (Node.stmt s).records_outline

@[local simp]
theorem Expr.records_list_outline (es : List Expr) :
    (Outline.list (es.map Expr.outline)).records = es.map Expr.outline := by
  simpa [Function.comp_def, Node.outline] using Node.records_list_outline (es.map Node.expr)

@[local simp]
theorem Stmt.records_list_outline (ss : List Stmt) :
    (Outline.list (ss.map Stmt.outline)).records = ss.map Stmt.outline := by
  simpa [Function.comp_def, Node.outline] using Node.records_list_outline (ss.map Node.stmt)

@[local simp]
theorem Token.records_list_text (ts : List Token) :
    (Outline.list (ts.map fun t => .text t.lexeme)).records = [] := by
  simp [records, isRecord]

/-- The records inside the outline of a node are the outlines of its children. -/
theorem Node.parts_outline (n : Node) : n.outline.parts = n.children.map outline := by
  cases n with
  | expr e =>
    cases e <;> simp [parts, outline, Expr.outline, children, Expr.children, Function.comp_def]
  | stmt s =>
    cases s with
    | conditional keyword condition thenBranch elseBranch =>
      cases elseBranch <;> simp [parts, outline, Stmt.outline, children]
    | define name initial => cases initial <;> simp [parts, outline, Stmt.outline, children]
    | leave keyword value => cases value <;> simp [parts, outline, Stmt.outline, children]
    | _ => simp [parts, outline, Stmt.outline, children, Function.comp_def]

theorem Node.recordsAt_outline (n : Node) {f : Field} (h : f ∉ partFields) :
    n.outline.recordsAt f = [] := by
  simp only [partFields, List.mem_cons, not_or] at h
  cases n with
  | expr e => cases e <;> simp [outline, Expr.outline, h]
  | stmt s =>
    cases s with
    | conditional keyword condition thenBranch elseBranch =>
      cases elseBranch <;> simp [outline, Stmt.outline, h]
    | define name initial => cases initial <;> simp [outline, Stmt.outline, h]
    | leave keyword value => cases value <;> simp [outline, Stmt.outline, h]
    | _ => simp [outline, Stmt.outline, h]

end Parts

theorem Node.nested_outline (n : Node) : n.outline.nested = n.universe.map outline := by
  induction n using child_induction with
  | h n ih =>
    have hchildren : (n.children.map outline).flatMap nested =
        (n.children.flatMap Node.universe).map outline := by
      rw [List.flatMap_map, List.map_flatMap]
      exact List.flatMap_congr ih
    rw [nested_eq, parts_outline, hchildren, universe_eq, List.map_cons]

theorem Node.line_outline (n : Node) : n.outline.get? .line = some (.int n.base.line) := by
  cases n with
  | expr e => cases e <;> rfl
  | stmt s =>
    cases s with
    | conditional keyword condition thenBranch elseBranch => cases elseBranch <;> rfl
    | define name initial => cases initial <;> rfl
    | _ => rfl

/-- The outline of a node mirrors the tree of the node. The records inside it, taken field by field
in the order of the source, are the outlines of the children, and no other field holds a record. The
records nested in it, each before those inside it, are the outlines of all nodes, one for one, and
each has the line of the token its node is attributed to. -/
theorem outline_mirrors_tree (n : Node) :
    n.outline.parts = n.children.map Node.outline ∧
      (∀ f ∉ partFields, n.outline.recordsAt f = []) ∧
      n.outline.nested = n.universe.map Node.outline ∧
      n.outline.nested.map (·.get? .line) = n.universe.map fun m => some (.int m.base.line) := by
  refine ⟨n.parts_outline, fun f hf => n.recordsAt_outline hf, n.nested_outline, ?_⟩
  rw [n.nested_outline, List.map_map]
  exact List.map_congr_left fun m _ => m.line_outline

end ScriptFront
