import Mathlib.Data.List.TakeWhile
import ScriptFront.Proofs.Scan.Rune
import ScriptFront.Token.Segment

/-! # The longest match

A source is cut at each position by the rule of the longest match: the segment is the longest
stretch of bytes that begins there and belongs to one of the classes. The cut found by looking at
the first bytes is the one that this rule gives.
-/

namespace ScriptFront

open Segment

/-- How an operator or a punctuation mark is written. -/
def Kind.spelling? : Kind → Option String
  | .leftParen => some "("
  | .rightParen => some ")"
  | .leftBrace => some "\x7b"
  | .rightBrace => some "\x7d"
  | .comma => some ","
  | .dot => some "."
  | .semicolon => some ";"
  | .minus => some "-"
  | .plus => some "+"
  | .star => some "*"
  | .slash => some "/"
  | .bang => some "!"
  | .equal => some "="
  | .less => some "<"
  | .greater => some ">"
  | .minusEqual => some "-="
  | .plusEqual => some "+="
  | .starEqual => some "*="
  | .slashEqual => some "/="
  | .bangEqual => some "!="
  | .equalEqual => some "=="
  | .lessEqual => some "<="
  | .greaterEqual => some ">="
  | .logicalAnd => some "&&"
  | .logicalOr => some "||"
  | _ => none

/-- The scanner knows the symbols of all spellings and no others. -/
theorem Kind.mem_symbols_iff {s : String} {k : Kind} :
    (s, k) ∈ symbols ↔ k.spelling? = some s := by
  constructor
  · intro h
    have hall : ∀ e ∈ symbols, e.2.spelling? = some e.1 := by decide
    exact hall (s, k) h
  · intro h
    cases k <;> cases h <;> decide

/-- The stretches of bytes that belong to a class. -/
inductive SegmentClass.Matches : SegmentClass → Bytes → Prop where
  | blank {b : UInt8} (h : b ∈ text " \t\r\n") : Matches .blank [b]
  | comment {mark line : Bytes} (hm : mark = text "//" ∨ mark = text "/*")
      (hl : Bytes.newline ∉ line) : Matches .comment (mark ++ line)
  | symbol {s : String} {k : Kind} (h : k.spelling? = some s) : Matches (.symbol k) (text s)
  | word {b : UInt8} {more : Bytes} (hb : isLetter b)
      (hm : ∀ x ∈ more, isLetter x ∨ isDigit x ∨ x = byte '-') : Matches .word (b :: more)
  | whole {digits : Bytes} (hne : digits ≠ []) (hd : ∀ d ∈ digits, isDigit d) :
      Matches .number digits
  | decimal {digits fraction : Bytes} (hne : digits ≠ []) (hd : ∀ d ∈ digits, isDigit d)
      (hne' : fraction ≠ []) (hf : ∀ d ∈ fraction, isDigit d) :
      Matches .number (digits ++ byte '.' :: fraction)
  | string {inner : Bytes} (h : byte '"' ∉ inner) :
      Matches .string (byte '"' :: inner ++ [byte '"'])

/-- There are stretches of bytes that belong to the class. -/
def SegmentClass.isInhabited : SegmentClass → Bool
  | .openString | .stray _ => false
  | _ => true

/-- No stretch of bytes of any class begins the source. -/
def Source.Unmatched (source : Bytes) : Prop :=
  ∀ (k : SegmentClass) (p : Bytes), k.Matches p → ¬p <+: source

namespace Segment

structure IsLongest (source : Bytes) (s : Segment) : Prop where
  matched : s.kind.Matches s.bytes
  begins : s.bytes <+: source
  longest : ∀ (k : SegmentClass) (p : Bytes), k.Matches p → p <+: source → p.length ≤ s.bytes.length

/-- The first segment of a source by the rule of the longest match. -/
inductive Leads (source : Bytes) : Segment → Prop where
  | longest {s : Segment} (h : s.IsLongest source) : Leads source s
  | openString (hn : Source.Unmatched source) (hq : source.head? = some (byte '"')) :
      Leads source ⟨.openString, source⟩
  | character {c : Char} (hn : Source.Unmatched source) (hq : source.head? ≠ some (byte '"'))
      (hc : String.utf8EncodeChar c <+: source) :
      Leads source ⟨.stray (.char c), String.utf8EncodeChar c⟩
  | loneByte {b : UInt8} (hn : Source.Unmatched source) (hb : source.head? = some b)
      (hc : ∀ c, ¬String.utf8EncodeChar c <+: source) : Leads source ⟨.stray (.stray b), [b]⟩

theorem matches_ne_nil {k : SegmentClass} {p : Bytes} (h : k.Matches p) : p ≠ [] := by
  cases h with
  | whole hne _ => exact hne
  | @comment mark line hm _ =>
    have hne : mark ≠ [] := by rcases hm with rfl | rfl <;> decide
    exact List.append_ne_nil_of_left_ne_nil hne line
  | @symbol s k h =>
    have hall : ∀ e ∈ Kind.symbols, text e.1 ≠ [] := by decide
    exact hall (s, k) (Kind.mem_symbols_iff.mpr h)
  | blank | word | decimal | string => simp

theorem encode_ne_nil (c : Char) : String.utf8EncodeChar c ≠ [] := by
  intro h
  have hl := String.length_utf8EncodeChar c
  rw [h, List.length_nil] at hl
  exact c.utf8Size_pos.ne hl

namespace Leads

variable {source : Bytes} {s : Segment}

theorem bytes_ne_nil (h : s.Leads source) : s.bytes ≠ [] := by
  cases h with
  | longest h => exact matches_ne_nil h.matched
  | openString _ hq =>
    rintro (rfl : source = [])
    cases hq
  | character => exact encode_ne_nil _
  | loneByte => simp

theorem matched (h : s.Leads source) (hk : s.kind.isInhabited) : s.kind.Matches s.bytes := by
  cases h with
  | longest h => exact h.matched
  | openString | character | loneByte => cases hk

end Leads

/-! ### The first byte decides -/

theorem isBlank_iff {b : UInt8} : isBlank b ↔ b ∈ text " \t\r\n" := by
  have h : text " \t\r\n" = [byte ' ', byte '\t', byte '\r', Bytes.newline] := by decide
  simp [isBlank, h, or_assoc]

theorem isWordPart_iff {b : UInt8} : isWordPart b ↔ isLetter b ∨ isDigit b ∨ b = byte '-' := by
  simp [isWordPart, or_assoc]

theorem not_isBlank {b : UInt8} (h : isLetter b ∨ isDigit b) : isBlank b = false := by
  by_contra hb
  rw [Bool.not_eq_false, isBlank_iff] at hb
  have hno : (text " \t\r\n").all fun x => !(isLetter x || isDigit x) := by decide
  have hb' := List.all_eq_true.mp hno b hb
  grind

theorem eq_slash_of_isComment {b : UInt8} {rest : Bytes} (h : isComment b rest) :
    b = byte '/' ∧ ∃ c more, rest = c :: more ∧ (c = byte '/' ∨ c = byte '*') := by
  cases rest with
  | nil => simp [isComment] at h
  | cons c more =>
    simp only [isComment, List.head?_cons, Bool.and_eq_true, Bool.or_eq_true, beq_iff_eq,
      Option.some.injEq] at h
    exact ⟨h.1, c, more, rfl, h.2⟩

theorem not_isComment {b : UInt8} {rest : Bytes} (h : b ≠ byte '/') : isComment b rest = false := by
  by_contra hc
  exact h (eq_slash_of_isComment (Bool.not_eq_false _ ▸ hc)).1

theorem not_isLetter {b : UInt8} (h : isDigit b) : isLetter b = false := by
  have h9 : b.toNat ≤ 57 := by
    rw [isDigit, Bool.and_eq_true, decide_eq_true_eq, decide_eq_true_eq] at h
    exact UInt8.le_iff_toNat_le.mp h.2
  rw [← Bool.not_eq_true, isLetter]
  simp only [byte, UInt8.le_iff_toNat_le, Bool.or_eq_true, Bool.and_eq_true, decide_eq_true_eq]
  change ¬((97 ≤ b.toNat ∧ b.toNat ≤ 122) ∨ 65 ≤ b.toNat ∧ b.toNat ≤ 90)
  omega

theorem first_of_blank {b : UInt8} {rest : Bytes} (h : isBlank b) :
    first b rest = ⟨.blank, [b]⟩ := by
  simp [first, h]

theorem first_of_comment {b : UInt8} {rest : Bytes} (h : isComment b rest) :
    first b rest = ⟨.comment, (b :: rest).takeWhile (· != Bytes.newline)⟩ := by
  obtain ⟨rfl, -⟩ := eq_slash_of_isComment h
  have hb : isBlank (byte '/') = false := by decide
  have hn : (byte '/' != Bytes.newline) = true := by decide
  simp [first, hb, h, hn]

theorem first_of_letter {b : UInt8} {rest : Bytes} (h : isLetter b) :
    first b rest = ⟨.word, (b :: rest).takeWhile isWordPart⟩ := by
  have hb : isBlank b = false := not_isBlank (.inl h)
  have hc : isComment b rest = false := not_isComment (by rintro rfl; exact absurd h (by decide))
  simp [first, hb, hc, h, isWordPart]

theorem first_of_digit {b : UInt8} {rest : Bytes} (h : isDigit b) :
    first b rest =
      ⟨.number, (b :: rest).takeWhile isDigit ++ fraction ((b :: rest).dropWhile isDigit)⟩ := by
  have hb : isBlank b = false := not_isBlank (.inr h)
  have hc : isComment b rest = false := not_isComment (by rintro rfl; exact absurd h (by decide))
  simp [first, hb, hc, not_isLetter h, h]

theorem first_of_quote {rest : Bytes} : first (byte '"') rest = quote rest := by
  have hb : isBlank (byte '"') = false := by decide
  have hc : isComment (byte '"') rest = false := not_isComment (by decide)
  have hl : isLetter (byte '"') = false := by decide
  have hd : isDigit (byte '"') = false := by decide
  simp [first, hb, hc, hl, hd]

theorem first_of_other {b : UInt8} {rest : Bytes} (hb : isBlank b = false)
    (hc : isComment b rest = false) (hl : isLetter b = false) (hd : isDigit b = false)
    (hq : b ≠ byte '"') :
    first b rest = (symbol? b rest).getD
      ⟨.stray (Utf8.first b rest), (b :: rest).take (Utf8.first b rest).width⟩ := by
  simp only [first, hb, hc, hl, hd, beq_iff_eq, hq, Bool.false_eq_true, ↓reduceIte]
  split <;> simp [*]

/-! ### Symbols -/

theorem ofSymbol?_eq_some_iff {bytes : Bytes} {k : Kind} :
    Kind.ofSymbol? bytes = some k ↔ ∃ s, (s, k) ∈ Kind.symbols ∧ text s = bytes := by
  constructor
  · intro h
    obtain ⟨⟨s, k'⟩, hf, rfl⟩ := Option.map_eq_some_iff.mp h
    exact ⟨s, List.mem_of_find?_eq_some hf, by simpa using List.find?_some hf⟩
  · rintro ⟨s, h, rfl⟩
    have hall : ∀ e ∈ Kind.symbols, Kind.ofSymbol? (text e.1) = some e.2 := by decide
    exact hall (s, k) h

theorem matches_of_ofSymbol? {bytes : Bytes} {k : Kind} (h : Kind.ofSymbol? bytes = some k) :
    (SegmentClass.symbol k).Matches bytes := by
  obtain ⟨s, hs, rfl⟩ := ofSymbol?_eq_some_iff.mp h
  exact .symbol (Kind.mem_symbols_iff.mp hs)

/-- A symbol at the start of a source is its first byte or its first two. -/
theorem symbol_eq_take {s : String} {k : Kind} {b : UInt8} {rest : Bytes}
    (h : (s, k) ∈ Kind.symbols) (hp : text s <+: b :: rest) :
    text s = [b] ∨ text s = b :: rest.take 1 := by
  have hlen : ∀ e ∈ Kind.symbols, (text e.1).length = 1 ∨ (text e.1).length = 2 := by decide
  have ht := List.prefix_iff_eq_take.mp hp
  rcases hlen _ h with hl | hl
  · rw [hl] at ht
    exact .inl ht
  · rw [hl] at ht
    exact .inr ht

/-- Only a comment begins with the first byte of a symbol as well. -/
theorem symbol_head {s : String} {k : Kind} {b : UInt8} {rest : Bytes}
    (h : (s, k) ∈ Kind.symbols) (hp : text s <+: b :: rest) :
    isBlank b = false ∧ isLetter b = false ∧ isDigit b = false ∧ b ≠ byte '"' := by
  have hall : ∀ e ∈ Kind.symbols, (text e.1).head?.all fun x =>
      !(isBlank x || isLetter x || isDigit x || x == byte '"') := by decide
  have hb := hall _ h
  have hhead : (text s).head? = some b := by
    rcases symbol_eq_take h hp with ht | ht <;> simp [ht]
  simpa [hhead, and_assoc] using hb

theorem symbol?_of_long {b : UInt8} {rest : Bytes} {k : Kind}
    (h : Kind.ofSymbol? (b :: rest.take 1) = some k) :
    symbol? b rest = some ⟨.symbol k, b :: rest.take 1⟩ := by
  simp [symbol?, h]

theorem symbol?_of_short {b : UInt8} {rest : Bytes} (h : Kind.ofSymbol? (b :: rest.take 1) = none) :
    symbol? b rest = (Kind.ofSymbol? [b]).map fun k => ⟨.symbol k, [b]⟩ := by
  simp [symbol?, h]

theorem symbol?_matches {b : UInt8} {rest : Bytes} {s : Segment} (h : symbol? b rest = some s) :
    s.kind.Matches s.bytes := by
  cases hl : Kind.ofSymbol? (b :: rest.take 1) with
  | some k =>
    rw [symbol?_of_long hl, Option.some.injEq] at h
    rw [← h]
    exact matches_of_ofSymbol? hl
  | none =>
    rw [symbol?_of_short hl] at h
    obtain ⟨k, hk, rfl⟩ := Option.map_eq_some_iff.mp h
    exact matches_of_ofSymbol? hk

/-! ### Comments, numbers and strings -/

theorem comment_matches {b : UInt8} {rest : Bytes} (h : isComment b rest) :
    SegmentClass.comment.Matches ((b :: rest).takeWhile (· != Bytes.newline)) := by
  obtain ⟨rfl, c, more, rfl, hc⟩ := eq_slash_of_isComment h
  have hline : Bytes.newline ∉ more.takeWhile (· != Bytes.newline) := fun h => by
    simpa using List.mem_takeWhile_imp h
  have hmark : [byte '/', c] = text "//" ∨ [byte '/', c] = text "/*" := by
    rcases hc with rfl | rfl <;> decide
  have hslash : (byte '/' != Bytes.newline) = true := by decide
  have hnext : (c != Bytes.newline) = true := by rcases hc with rfl | rfl <;> decide
  have hnl : ∀ x ∈ [byte '/', c], (x != Bytes.newline) = true :=
    List.forall_mem_cons.mpr ⟨hslash, List.forall_mem_singleton.mpr hnext⟩
  change SegmentClass.comment.Matches (([byte '/', c] ++ more).takeWhile (· != Bytes.newline))
  rw [List.takeWhile_append_of_pos hnl]
  exact .comment hmark hline

theorem isComment_of_mark {mark line : Bytes} {b : UInt8} {rest : Bytes}
    (hm : mark = text "//" ∨ mark = text "/*") (hp : mark ++ line <+: b :: rest) :
    isComment b rest := by
  have hslash : text "//" = [byte '/', byte '/'] := by decide
  have hstar : text "/*" = [byte '/', byte '*'] := by decide
  obtain ⟨more, hp⟩ := hp
  rcases hm with rfl | rfl
  · rw [hslash] at hp
    obtain ⟨rfl, rfl⟩ := List.cons.inj hp
    rfl
  · rw [hstar] at hp
    obtain ⟨rfl, rfl⟩ := List.cons.inj hp
    rfl

theorem number_matches {digits : Bytes} (hne : digits ≠ []) (hd : ∀ d ∈ digits, isDigit d)
    (rest : Bytes) : SegmentClass.number.Matches (digits ++ fraction rest) := by
  fun_cases fraction rest with
  | case1 point d rest h =>
    obtain ⟨rfl, hf⟩ := h
    refine .decimal hne hd (by simp [hf]) fun x hx => ?_
    exact List.mem_takeWhile_imp hx
  | case2 | case3 =>
    rw [List.append_nil]
    exact .whole hne hd

theorem number_head {p : Bytes} (h : SegmentClass.number.Matches p) :
    ∃ d more, p = d :: more ∧ isDigit d := by
  cases h with
  | whole hne hd =>
    obtain ⟨d, more, rfl⟩ := List.exists_cons_of_ne_nil hne
    exact ⟨d, more, rfl, hd d (by simp)⟩
  | decimal hne hd _ _ =>
    obtain ⟨d, more, rfl⟩ := List.exists_cons_of_ne_nil hne
    exact ⟨d, _, rfl, hd d (by simp)⟩

theorem isDigit_of_number {p : Bytes} {b : UInt8} {rest : Bytes}
    (h : SegmentClass.number.Matches p) (hp : p <+: b :: rest) : isDigit b := by
  obtain ⟨d, more, rfl, hd⟩ := number_head h
  obtain ⟨rfl, -⟩ := List.cons_prefix_cons.mp hp
  exact hd

theorem fraction_append {digits : Bytes} (hne : digits ≠ []) (hd : ∀ d ∈ digits, isDigit d)
    (rest : Bytes) :
    fraction (byte '.' :: (digits ++ rest)) = byte '.' :: digits ++ rest.takeWhile isDigit := by
  cases digits with
  | nil => exact absurd rfl hne
  | cons d digits =>
    have hfirst : isDigit d := hd d (by simp)
    rw [List.cons_append, fraction, if_pos ⟨rfl, hfirst⟩, ← List.cons_append,
      List.takeWhile_append_of_pos hd]
    rfl

theorem takeWhile_ne_append {mark : UInt8} {inner : Bytes} (h : mark ∉ inner) (rest : Bytes) :
    (inner ++ mark :: rest).takeWhile (· != mark) = inner := by
  have hall : ∀ x ∈ inner, (x != mark) = true := fun x hx => by
    simpa using fun hm : x = mark => h (hm ▸ hx)
  simp [List.takeWhile_append_of_pos hall]

theorem quote_of_closed {inner : Bytes} (h : byte '"' ∉ inner) (rest : Bytes) :
    quote (inner ++ byte '"' :: rest) = ⟨.string, byte '"' :: inner ++ [byte '"']⟩ := by
  unfold quote
  rw [takeWhile_ne_append h]
  simp

/-! ### The cut -/

/-- The first segment belongs to its class, but for an open string and a stray unit. -/
theorem first_matches (b : UInt8) (rest : Bytes) :
    (first b rest).kind.Matches (first b rest).bytes ∨
      (b = byte '"' ∧ first b rest = ⟨.openString, b :: rest⟩) ∨
      (b ≠ byte '"' ∧ first b rest =
        ⟨.stray (Utf8.first b rest), (b :: rest).take (Utf8.first b rest).width⟩) := by
  by_cases hb : isBlank b
  · rw [first_of_blank hb]
    exact .inl (.blank (isBlank_iff.mp hb))
  by_cases hc : isComment b rest
  · rw [first_of_comment hc]
    exact .inl (comment_matches hc)
  by_cases hl : isLetter b
  · rw [first_of_letter hl, List.takeWhile_cons, if_pos (isWordPart_iff.mpr (.inl hl))]
    exact .inl (.word hl fun x hx => isWordPart_iff.mp (List.mem_takeWhile_imp hx))
  by_cases hd : isDigit b
  · rw [first_of_digit hd]
    exact .inl (number_matches (by simp [hd]) (fun x hx => List.mem_takeWhile_imp hx) _)
  by_cases hq : b = byte '"'
  · subst hq
    rw [first_of_quote]
    unfold quote
    dsimp only
    split
    · refine .inl (.string fun h => ?_)
      simpa using List.mem_takeWhile_imp h
    · exact .inr (.inl ⟨rfl, rfl⟩)
  · rw [Bool.not_eq_true] at hb hc hl hd
    rw [first_of_other hb hc hl hd hq]
    cases hs : symbol? b rest with
    | none => exact .inr (.inr ⟨hq, rfl⟩)
    | some s => exact .inl (symbol?_matches hs)

theorem isPrefix_takeWhile {q : UInt8 → Bool} {p source : Bytes} (hq : ∀ x ∈ p, q x)
    (hp : p <+: source) : p <+: source.takeWhile q := by
  obtain ⟨more, rfl⟩ := hp
  rw [List.takeWhile_append_of_pos hq]
  exact List.prefix_append _ _

/-- The segment goes at least as far as the stretch of bytes, and no farther only in one class. -/
structure Reaches (s : Segment) (k : SegmentClass) (p : Bytes) : Prop where
  inhabited : s.kind.isInhabited
  begins : p <+: s.bytes
  kind_eq : p = s.bytes → k = s.kind

theorem reaches_symbol {s : String} {k : Kind} {b : UInt8} {rest : Bytes}
    (h : (s, k) ∈ Kind.symbols) (hp : text s <+: b :: rest) :
    (first b rest).Reaches (.symbol k) (text s) := by
  obtain ⟨hb, hl, hd, hq⟩ := symbol_head h hp
  have hk : Kind.ofSymbol? (text s) = some k := ofSymbol?_eq_some_iff.mpr ⟨s, h, rfl⟩
  by_cases hc : isComment b rest
  · -- Of the symbols only the slash begins a comment, and it is shorter.
    obtain ⟨rfl, c, more, rfl, hmark⟩ := eq_slash_of_isComment hc
    have hn : (byte '/' != Bytes.newline) = true := by decide
    have hn' : (c != Bytes.newline) = true := by rcases hmark with rfl | rfl <;> decide
    have hno : Kind.ofSymbol? [byte '/', c] = none := by rcases hmark with rfl | rfl <;> decide
    have ht : text s = [byte '/'] := by
      refine (symbol_eq_take h hp).resolve_right fun ht => ?_
      rw [ht, List.take_succ_cons, List.take_zero, hno] at hk
      cases hk
    rw [first_of_comment hc, ht]
    exact ⟨rfl, by simp [hn], by simp [hn, hn']⟩
  rw [first_of_other hb (Bool.not_eq_true _ ▸ hc) hl hd hq]
  cases hlong : Kind.ofSymbol? (b :: rest.take 1) with
  | some k' =>
    rw [symbol?_of_long hlong]
    refine ⟨rfl, ?_, fun ht : text s = b :: rest.take 1 => ?_⟩
    · rcases symbol_eq_take h hp with ht | ht
      · rw [ht]
        exact List.prefix_append [b] _
      · rw [ht]
        exact List.prefix_refl _
    · rw [ht, hlong, Option.some.injEq] at hk
      rw [hk]
      rfl
  | none =>
    have ht : text s = [b] := by
      refine (symbol_eq_take h hp).resolve_right fun ht => ?_
      rw [ht, hlong] at hk
      cases hk
    rw [ht] at hk
    rw [symbol?_of_short hlong, hk, ht]
    exact ⟨rfl, List.prefix_refl _, fun _ => rfl⟩

theorem first_reaches {k : SegmentClass} {p : Bytes} {b : UInt8} {rest : Bytes}
    (hm : k.Matches p) (hp : p <+: b :: rest) : (first b rest).Reaches k p := by
  cases hm with
  | @blank b' h =>
    obtain ⟨rfl, -⟩ := List.cons_prefix_cons.mp hp
    rw [first_of_blank (isBlank_iff.mpr h)]
    exact ⟨rfl, List.prefix_refl _, fun _ => rfl⟩
  | @comment mark line hmark hline =>
    have hnl : ∀ x ∈ mark ++ line, (x != Bytes.newline) = true := by
      have hmark' : Bytes.newline ∉ mark := by rcases hmark with rfl | rfl <;> decide
      grind
    rw [first_of_comment (isComment_of_mark hmark hp)]
    exact ⟨rfl, isPrefix_takeWhile hnl hp, fun _ => rfl⟩
  | symbol h => exact reaches_symbol (Kind.mem_symbols_iff.mpr h) hp
  | @word b' more hb hw =>
    have hpart : ∀ x ∈ b' :: more, isWordPart x :=
      List.forall_mem_cons.mpr ⟨isWordPart_iff.mpr (.inl hb), fun x hx => isWordPart_iff.mpr (hw x hx)⟩
    have hcut := isPrefix_takeWhile hpart hp
    obtain ⟨rfl, -⟩ := List.cons_prefix_cons.mp hp
    rw [first_of_letter hb]
    exact ⟨rfl, hcut, fun _ => rfl⟩
  | whole hne hd =>
    have hcut := isPrefix_takeWhile hd hp
    rw [first_of_digit (isDigit_of_number (.whole hne hd) hp)]
    exact ⟨rfl, hcut.trans (List.prefix_append _ _), fun _ => rfl⟩
  | @decimal digits fraction hne hd hne' hf =>
    have hb := isDigit_of_number (.decimal hne hd hne' hf) hp
    have hdot : isDigit (byte '.') = false := by decide
    obtain ⟨more, hsource⟩ := hp
    have hfirst : first b rest =
        ⟨.number, digits ++ byte '.' :: fraction ++ more.takeWhile isDigit⟩ := by
      rw [first_of_digit hb, ← hsource, List.append_assoc, List.takeWhile_append_of_pos hd,
        List.dropWhile_append_of_pos hd]
      simp [hdot, fraction_append hne' hf]
    rw [hfirst]
    exact ⟨rfl, List.prefix_append _ _, fun _ => rfl⟩
  | @string inner hi =>
    obtain ⟨more, hsource⟩ := hp
    have hsplit : byte '"' :: (inner ++ byte '"' :: more) = b :: rest := by simpa using hsource
    obtain ⟨rfl, rfl⟩ := List.cons.inj hsplit
    rw [first_of_quote, quote_of_closed hi]
    exact ⟨rfl, List.prefix_refl _, fun _ => rfl⟩

theorem first_isPrefix (b : UInt8) (rest : Bytes) : (first b rest).bytes <+: b :: rest := by
  obtain ⟨more, hb, hp⟩ := first_bytes b rest
  rw [hb]
  exact List.cons_prefix_cons.mpr ⟨rfl, hp⟩

theorem unmatched_of_first {b : UInt8} {rest : Bytes} (h : (first b rest).kind.isInhabited = false) :
    Source.Unmatched (b :: rest) := by
  intro k p hm hp
  rw [(first_reaches hm hp).inhabited] at h
  cases h

theorem first_leads (b : UInt8) (rest : Bytes) : (first b rest).Leads (b :: rest) := by
  rcases first_matches b rest with hm | ⟨rfl, hs⟩ | ⟨hq, hs⟩
  · refine .longest ⟨hm, first_isPrefix b rest, fun k p hm' hp => ?_⟩
    exact (first_reaches hm' hp).begins.length_le
  · have hn : Source.Unmatched (byte '"' :: rest) := unmatched_of_first (by rw [hs]; rfl)
    rw [hs]
    exact .openString hn rfl
  · have hn : Source.Unmatched (b :: rest) := unmatched_of_first (by rw [hs]; rfl)
    rw [hs]
    cases hu : Utf8.first b rest with
    | char c =>
      rw [Utf8.take_width hu]
      exact .character hn (by simpa using hq) (Utf8.first_eq_char_iff.mp hu)
    | stray x =>
      obtain ⟨rfl, hc⟩ := Utf8.first_eq_stray_iff.mp hu
      exact .loneByte hn rfl hc

theorem Leads.eq_first {s : Segment} {b : UInt8} {rest : Bytes} (h : s.Leads (b :: rest)) :
    s = first b rest := by
  have hunmatched (hn : Source.Unmatched (b :: rest)) :=
    (first_matches b rest).resolve_left fun hm => hn _ _ hm (first_isPrefix b rest)
  cases h with
  | longest h =>
    have hr := first_reaches h.matched h.begins
    have hm := (first_leads b rest).matched hr.inhabited
    have hbytes : s.bytes = (first b rest).bytes :=
      hr.begins.eq_of_length_le (h.longest _ _ hm (first_isPrefix b rest))
    have hkind := hr.kind_eq hbytes
    obtain ⟨kind, bytes⟩ := s
    rw [show kind = _ from hkind, show bytes = _ from hbytes]
  | openString hn hq =>
    rcases hunmatched hn with ⟨-, hs⟩ | ⟨hq', -⟩
    · exact hs.symm
    · exact absurd hq (by simpa using hq')
  | @character c hn hq hc =>
    have hu : Utf8.first b rest = .char c := Utf8.first_eq_char_iff.mpr hc
    rcases hunmatched hn with ⟨hq', -⟩ | ⟨-, hs⟩
    · exact absurd hq (by simpa using hq')
    · rw [hs, hu, Utf8.take_width hu]
  | @loneByte x hn hb hc =>
    obtain rfl : b = x := by simpa using hb
    have hu : Utf8.first b rest = .stray b := Utf8.first_eq_stray_iff.mpr ⟨rfl, hc⟩
    rcases hunmatched hn with ⟨rfl, -⟩ | ⟨-, hs⟩
    · exact absurd hu (by simp [Utf8.first, byte])
    · rw [hs, hu]
      rfl

end Segment

end ScriptFront
