/-! # Settings documents

What a settings document says, line by line: headers of tables and values under keys. A value
may be a table written within its line.
-/

namespace ScriptFront.Toml

abbrev Key := List Char

/-- The keys that lead to a value, from the outermost table on. -/
abbrev Path := List Key

inductive Datum where
  | string (cs : List Char)
  | bool (b : Bool)
  /-- A number, a date or a time of day. -/
  | scalar
  | array (items : List Datum)
  | inline (pairs : List (Path × Datum))
  deriving Repr

inductive Item where
  | table (path : Path)
  /-- The header of one more element of a list of tables. -/
  | element (path : Path)
  | pair (path : Path) (value : Datum)
  deriving Repr

end ScriptFront.Toml
