import ScriptFront.Text.Utf8
import ScriptFront.Token.Kind

/-! # Segments of a source

A source is cut from left to right into segments: at each position the longest stretch of bytes
that is a blank, a comment, a symbol, a word, a number or a string. Where none of these begins,
one unit of the text is cut off, or, after a quote that is never closed, the whole rest.
-/

namespace ScriptFront

inductive SegmentClass where
  | blank
  | comment
  | symbol (kind : Kind)
  | word
  | number
  | string
  /-- A quote without a second one. -/
  | openString
  | stray (unit : Rune)
  deriving DecidableEq, Repr

structure Segment where
  kind : SegmentClass
  bytes : Bytes
  deriving DecidableEq, Repr

namespace Segment

def isBlank (b : UInt8) : Bool :=
  b == byte ' ' || b == byte '\t' || b == byte '\r' || b == Bytes.newline

def isWordPart (b : UInt8) : Bool := isLetter b || isDigit b || b == byte '-'

/-- The fraction that follows the digits of a number: a point with a digit after it. -/
def fraction : Bytes → Bytes
  | point :: d :: rest =>
    if point = byte '.' ∧ isDigit d then point :: (d :: rest).takeWhile isDigit else []
  | _ => []

def quote (rest : Bytes) : Segment :=
  let inner := rest.takeWhile (· != byte '"')
  if inner.length < rest.length then ⟨.string, byte '"' :: inner ++ [byte '"']⟩
  else ⟨.openString, byte '"' :: rest⟩

/-- A comment begins with `//` or `/*` and runs to the end of the line. -/
def isComment (b : UInt8) (rest : Bytes) : Bool :=
  b == byte '/' && (rest.head? == some (byte '/') || rest.head? == some (byte '*'))

/-- The symbol of one or two bytes at the start of `b :: rest`; the longer one is preferred. -/
def symbol? (b : UInt8) (rest : Bytes) : Option Segment :=
  let long := b :: rest.take 1
  let short := [b]
  ((Kind.ofSymbol? long).map fun k => ⟨.symbol k, long⟩) <|>
    (Kind.ofSymbol? short).map fun k => ⟨.symbol k, short⟩

def first (b : UInt8) (rest : Bytes) : Segment :=
  if isBlank b then ⟨.blank, [b]⟩
  else if isComment b rest then ⟨.comment, b :: rest.takeWhile (· != Bytes.newline)⟩
  else if isLetter b then ⟨.word, b :: rest.takeWhile isWordPart⟩
  else if isDigit b then
    let whole := b :: rest.takeWhile isDigit
    ⟨.number, whole ++ fraction (rest.dropWhile isDigit)⟩
  else if b == byte '"' then quote rest
  else match symbol? b rest with
    | some s => s
    | none =>
      let unit := Utf8.first b rest
      ⟨.stray unit, (b :: rest).take unit.width⟩

theorem fraction_isPrefix : ∀ b : Bytes, fraction b <+: b
  | [] => List.nil_prefix
  | [_] => List.nil_prefix
  | point :: d :: rest => by
    rw [fraction]
    split
    · exact List.cons_prefix_cons.2 ⟨rfl, List.takeWhile_prefix isDigit⟩
    · exact List.nil_prefix

/-- The part of a text before its first mark, together with the mark, begins the text. -/
theorem takeWhile_append_mark {mark : UInt8} {rest : Bytes}
    (h : (rest.takeWhile (· != mark)).length < rest.length) :
    rest.takeWhile (· != mark) ++ [mark] <+: rest := by
  induction rest with
  | nil => simp at h
  | cons b rest ih =>
    by_cases hb : b = mark
    · simp [hb]
    · simp only [List.takeWhile_cons, bne_iff_ne, ne_eq, hb, not_false_eq_true, ↓reduceIte,
        List.length_cons, Nat.add_lt_add_iff_right, List.cons_append,
        List.cons_prefix_cons, true_and] at h ⊢
      exact ih h

theorem first_bytes (b : UInt8) (rest : Bytes) :
    ∃ more, (first b rest).bytes = b :: more ∧ more <+: rest := by
  unfold first
  split
  · exact ⟨[], rfl, List.nil_prefix⟩
  split
  · exact ⟨_, rfl, List.takeWhile_prefix _⟩
  split
  · exact ⟨_, rfl, List.takeWhile_prefix _⟩
  split
  · refine ⟨_, rfl, ?_⟩
    have h := fraction_isPrefix (rest.dropWhile isDigit)
    have := (List.prefix_append_right_inj (rest.takeWhile isDigit)).2 h
    rwa [List.takeWhile_append_dropWhile] at this
  split
  · rename_i hb
    have hb : b = byte '"' := by simpa using hb
    subst hb
    unfold quote
    dsimp only
    split
    · rename_i h
      exact ⟨_, rfl, takeWhile_append_mark h⟩
    · exact ⟨rest, rfl, List.prefix_refl rest⟩
  split
  · rename_i s hs
    unfold symbol? at hs
    dsimp only at hs
    cases hl : Kind.ofSymbol? (b :: rest.take 1) with
    | some k =>
      simp only [hl, Option.map_some, Option.orElse_eq_orElse, Option.orElse_some,
        Option.some.injEq] at hs
      exact ⟨_, by rw [← hs], List.take_prefix 1 rest⟩
    | none =>
      simp only [hl, Option.map_none, Option.orElse_eq_orElse, Option.orElse_none] at hs
      obtain ⟨k, -, rfl⟩ := Option.map_eq_some_iff.1 hs
      exact ⟨[], rfl, List.nil_prefix⟩
  · have h := (Utf8.first b rest).width_pos
    obtain ⟨n, hn⟩ := Nat.exists_eq_add_of_lt h
    exact ⟨rest.take n, by simp [hn], List.take_prefix n rest⟩

end Segment

namespace Source

/-- The segments after the next `skip` bytes. -/
def segmentsFrom : Nat → Bytes → List Segment
  | _, [] => []
  | skip + 1, _ :: rest => segmentsFrom skip rest
  | 0, b :: rest =>
    let s := Segment.first b rest
    s :: segmentsFrom (s.bytes.length - 1) rest

def segments (source : Bytes) : List Segment := segmentsFrom 0 source

theorem segmentsFrom_flatMap_bytes (skip : Nat) (source : Bytes) :
    (segmentsFrom skip source).flatMap Segment.bytes = source.drop skip := by
  induction source generalizing skip with
  | nil => simp [segmentsFrom]
  | cons b rest ih =>
    cases skip with
    | succ skip => simpa [segmentsFrom] using ih skip
    | zero =>
      obtain ⟨more, hm, last, rfl⟩ := Segment.first_bytes b rest
      simp [segmentsFrom, ih, hm]

/-- Segments leave nothing out and add nothing. -/
theorem segments_flatMap_bytes (source : Bytes) :
    (segments source).flatMap Segment.bytes = source := by
  simpa [segments] using segmentsFrom_flatMap_bytes 0 source

end Source

end ScriptFront
