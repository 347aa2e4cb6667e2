import ScriptFront.Toml.Document

/-! # Tables

The items of a document define a table of tables. A key may be defined once. A table that was
made only as the way to another one may still be defined, and an array may be replaced.
-/

namespace ScriptFront.Toml

inductive Content where
  | string (cs : List Char)
  | bool (b : Bool)
  /-- A number, a date, a time of day or an array. -/
  | other
  | table (entries : List (Key × Content))
  | tables (elements : List (List (Key × Content)))
  deriving Repr

abbrev Table := List (Key × Content)

namespace Table

def replace (t : Table) (k : Key) (n : Content) : Table :=
  t.map fun (k', n') => if k' = k then (k, n) else (k', n')

/-- The table with another one at the end of a path changed. In a list of tables the way leads
through the last. -/
def modifyAt (change : Table → Option Table) : Path → Table → Option Table
  | [], t => change t
  | k :: rest, t =>
    match t.lookup k with
    | some (.table u) => do
      let u ← modifyAt change rest u
      return t.replace k (.table u)
    | some (.tables us) => do
      let u ← us.getLast?
      let u ← modifyAt change rest u
      return t.replace k (.tables (us.dropLast ++ [u]))
    | _ => none

def put (t : Table) (k : Key) (n : Content) : Table :=
  if (t.lookup k).isSome then t.replace k n else t ++ [(k, n)]

/-- The value at the end of a path; tables that are missing on the way are made. -/
def putAt (k : Key) (n : Content) : Path → Table → Option Table
  | [], t => some (t.put k n)
  | p :: rest, t =>
    match t.lookup p with
    | none => do return t.put p (.table (← putAt k n rest []))
    | some (.table u) => do return t.put p (.table (← putAt k n rest u))
    | some _ => none

end Table

/-- What has been defined so far. -/
structure Definitions where
  root : Table := []
  /-- The tables made only as the way to others. -/
  implicit : List Path := []
  arrays : List Path := []
  named : List Path := []
  deriving Repr

namespace Definitions

/-- Changes what has been defined, or finds a conflict. -/
abbrev Change := StateT Definitions Option

def markImplicit (p : Path) : Change Unit :=
  modify fun d => { d with implicit := p :: d.implicit }

def unmarkImplicit (p : Path) : Change Unit :=
  modify fun d => { d with implicit := d.implicit.filter (· != p) }

def name (p : Path) : Change Unit := modify fun d => { d with named := d.named ++ [p] }

/-- Records whether the value under a key is an array. An empty key is taken for its table. -/
def recordKind (context : Path) (k : Key) (isArray : Bool) : Change Unit :=
  let p := if k.isEmpty then (if context.isEmpty then [[]] else context) else context ++ [k]
  modify fun d =>
    { d with arrays := if isArray then p :: d.arrays else d.arrays.filter (· != p) }

def change (p : Path) (f : Table → Option Table) : Change Unit := do
  let d ← get
  match d.root.modifyAt f p with
  | some root => set { d with root }
  | none => failure

def holds (d : Definitions) (context : Path) (k : Key) : Bool :=
  (d.root.modifyAt (fun t => if (t.lookup k).isSome then some t else none) context).isSome

def define (context : Path) (k : Key) (n : Content) : Change Unit := do
  let d ← get
  let p := context ++ [k]
  change context fun t =>
    if (t.lookup k).isNone then some (t ++ [(k, n)])
    else if d.arrays.contains p then some (t.replace k n)
    else if d.implicit.contains p then some t
    else none
  if d.holds context k then unmarkImplicit p

/-- Makes the table at the end of a path, if there is none, as the way to another one. -/
def ensure (p : Path) : Change Unit := do
  let context := p.dropLast
  let k := p.getLastD []
  let d ← get
  change context fun t =>
    match t.lookup k with
    | none => some (t ++ [(k, .table [])])
    | some (.table _) | some (.tables _) => some t
    | some _ => none
  if !d.holds context k then markImplicit p

def parents (p : Path) : List Path := (List.range (p.length - 1)).map fun n => p.take (n + 1)

def beginTable (p : Path) : Change Unit := do
  (parents p).forM ensure
  define p.dropLast (p.getLastD []) (.table [])

def beginElement (p : Path) : Change Unit := do
  (parents p).forM ensure
  let k := p.getLastD []
  change p.dropLast fun t =>
    match t.lookup k with
    | none => some (t ++ [(k, .tables [[]])])
    | some (.tables us) => some (t.replace k (.tables (us ++ [[]])))
    | some _ => none

/-- Begins the tables that the keys before the last one lead through. -/
def beginWay (context : Path) (way : Path) : Change Unit :=
  (List.range way.length).forM fun n => do
    let p := context ++ way.take (n + 1)
    markImplicit p
    beginTable p

def isArray : Datum → Bool
  | .array _ => true
  | _ => false

mutual

/-- The value of a key; tables within it are defined as they are met. -/
def valueOf (context : Path) (k : Key) (inArray : Bool) : Datum → Change Content
  | .string cs => return .string cs
  | .bool b => return .bool b
  | .scalar => return .other
  | .array items => do
    recordKind context k true
    itemsOf context k items
    return .other
  | .inline pairs => do
    let p := context ++ [k]
    markImplicit p
    if inArray then beginElement p else beginTable p
    return .table (← pairsOf p pairs [])

def itemsOf (context : Path) (k : Key) : List Datum → Change Unit
  | [] => return
  | item :: rest => do
    discard (valueOf context k true item)
    itemsOf context k rest

/-- The table that pairs make by themselves, while each is also defined below `context`. -/
def pairsOf (context : Path) : List (Path × Datum) → Table → Change Table
  | [], made => return made
  | (p, v) :: rest, made => do
    let way := p.dropLast
    let k := p.getLastD []
    beginWay context way
    name (context ++ p)
    let n ← valueOf (context ++ way) k false v
    define (context ++ way) k n
    recordKind (context ++ way) k (isArray v)
    match made.putAt k n way with
    | some made => pairsOf context rest made
    | none => failure

end

/-- One item, below the table whose header came last. -/
def add (context : Path) : Item → Change Path
  | .table p => do
    beginTable p
    recordKind p [] false
    name p
    return p
  | .element p => do
    beginElement p
    recordKind p [] false
    name p
    return p
  | .pair p v => do
    discard (pairsOf context [(p, v)] [])
    return context

def addAll : Path → List Item → Change Unit
  | _, [] => return
  | context, i :: rest => do
    let context ← add context i
    addAll context rest

end Definitions

def define? (items : List Item) : Option Definitions :=
  ((Definitions.addAll [] items).run {}).map Prod.snd

end ScriptFront.Toml
