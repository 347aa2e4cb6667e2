import ScriptFront.Proofs.Text.Quoted
import ScriptFront.Tree.Render

/-! # Lists in parentheses

A nested list of words and quoted texts, written between parentheses, can be read in one way only,
whatever follows it. A word ends at the first blank, parenthesis or quote, a quoted text at its
second quote, and a list at the parenthesis that closes it.
-/

namespace ScriptFront

/-! ### Atoms -/

/-- The bytes that a word may be made of. -/
def isPlain (b : UInt8) : Bool :=
  b != byte ' ' && b != byte '(' && b != byte ')' && b != byte '"'

theorem isPlain_of {p : UInt8 → Bool} {b : UInt8} (h : p b = true)
    (hp : [byte ' ', byte '(', byte ')', byte '"'].all (fun x => !p x) = true) :
    isPlain b = true := by
  have hne (x : UInt8) (hx : x ∈ [byte ' ', byte '(', byte ')', byte '"']) : b ≠ x := by
    rintro rfl
    have hno := List.all_eq_true.mp hp b hx
    rw [h] at hno
    cases hno
  simp [isPlain, hne (byte ' ') (by simp), hne (byte '(') (by simp), hne (byte ')') (by simp),
    hne (byte '"') (by simp)]

def IsWord (b : Bytes) : Prop := b ≠ [] ∧ b.all isPlain = true

instance (b : Bytes) : Decidable (IsWord b) := inferInstanceAs (Decidable (_ ∧ _))

theorem IsWord.isPlain_of_mem {b : Bytes} (h : IsWord b) : ∀ x ∈ b, isPlain x = true :=
  List.all_eq_true.mp h.2

/-- What is written between blanks and parentheses: a word, or a quoted text. -/
inductive IsAtom : Bytes → Prop where
  | word {b : Bytes} (h : IsWord b) : IsAtom b
  | quoted (b : Bytes) : IsAtom (quoted b)

/-- What may follow a word: nothing, a blank or the end of a list. -/
def IsStop (b : Bytes) : Prop := ∀ x ∈ b.head?, x = byte ' ' ∨ x = byte ')'

theorem isStop_nil : IsStop [] := by simp [IsStop]

theorem isStop_blank (b : Bytes) : IsStop (byte ' ' :: b) := by simp [IsStop]

theorem isStop_close (b : Bytes) : IsStop (byte ')' :: b) := by simp [IsStop]

theorem IsWord.takeWhile_append {b rest : Bytes} (h : IsWord b) (hr : IsStop rest) :
    (b ++ rest).takeWhile isPlain = b := by
  rw [List.takeWhile_append_of_pos h.isPlain_of_mem]
  cases rest with
  | nil => simp
  | cons x rest =>
    have hx : isPlain x = false := by rcases hr x rfl with rfl | rfl <;> decide
    rw [List.takeWhile_cons_of_neg (by simp [hx]), List.append_nil]

theorem IsAtom.exists_cons {b : Bytes} (h : IsAtom b) :
    ∃ x more, b = x :: more ∧ x ≠ byte '(' ∧ x ≠ byte ')' := by
  cases h with
  | word h =>
    obtain ⟨x, more, rfl⟩ := List.exists_cons_of_ne_nil h.1
    have hx := h.isPlain_of_mem x List.mem_cons_self
    refine ⟨x, more, rfl, ?_, ?_⟩
    · rintro rfl
      exact absurd hx (by decide)
    · rintro rfl
      exact absurd hx (by decide)
  | quoted b => exact ⟨_, _, rfl, by decide, by decide⟩

theorem IsWord.append_ne_quoted {b : Bytes} (h : IsWord b) (b' rest rest' : Bytes) :
    b ++ rest ≠ quoted b' ++ rest' := by
  obtain ⟨x, more, rfl⟩ := List.exists_cons_of_ne_nil h.1
  intro heq
  have hx := h.isPlain_of_mem x List.mem_cons_self
  rw [(List.cons.inj heq).1] at hx
  exact absurd hx (by decide)

theorem IsAtom.append_inj {b b' rest rest' : Bytes} (h : IsAtom b) (h' : IsAtom b')
    (hr : IsStop rest) (hr' : IsStop rest') (heq : b ++ rest = b' ++ rest') :
    b = b' ∧ rest = rest' := by
  cases h with
  | word h =>
    cases h' with
    | word h' =>
      obtain rfl : b = b' := by
        rw [← h.takeWhile_append hr, heq, h'.takeWhile_append hr']
      exact ⟨rfl, List.append_cancel_left heq⟩
    | quoted b' => exact absurd heq (h.append_ne_quoted b' _ _)
  | quoted b =>
    cases h' with
    | word h' => exact absurd heq.symm (h'.append_ne_quoted b _ _)
    | quoted b' =>
      obtain ⟨rfl, hrest⟩ := quoted_append_inj heq
      exact ⟨rfl, hrest⟩

/-! ### Lists -/

inductive Sexp where
  | atom (b : Bytes)
  | list (items : List Sexp)

namespace Sexp

mutual

def write : Sexp → Bytes
  | .atom b => b
  | .list [] => [byte '(', byte ')']
  | .list (s :: rest) => byte '(' :: (s.write ++ writeMore rest)

/-- What follows an item of a list: the other items, and the end of the list. -/
def writeMore : List Sexp → Bytes
  | [] => [byte ')']
  | s :: rest => byte ' ' :: (s.write ++ writeMore rest)

end

inductive Readable : Sexp → Prop where
  | atom {b : Bytes} (h : IsAtom b) : Readable (.atom b)
  | list {items : List Sexp} (h : ∀ s ∈ items, Readable s) : Readable (.list items)

theorem isStop_writeMore (items : List Sexp) (rest : Bytes) : IsStop (writeMore items ++ rest) := by
  cases items with
  | nil => exact isStop_close rest
  | cons s items => exact isStop_blank _

/-- No item begins like the end of a list. -/
theorem Readable.write_append_ne {s : Sexp} (h : s.Readable) (more rest : Bytes) :
    s.write ++ more ≠ byte ')' :: rest := by
  cases h with
  | atom h =>
    obtain ⟨x, tail, rfl, -, hx⟩ := h.exists_cons
    exact fun heq => hx (List.cons.inj heq).1
  | @list items h =>
    cases items <;> exact fun heq => absurd (List.cons.inj heq).1 (by decide)

theorem IsAtom.append_ne_write {b : Bytes} (h : IsAtom b) (items : List Sexp) (more rest : Bytes) :
    b ++ more ≠ (list items).write ++ rest := by
  obtain ⟨x, tail, rfl, hx, -⟩ := h.exists_cons
  cases items <;> exact fun heq => hx (List.cons.inj heq).1

mutual

/-- A list is told from every other one, whatever follows them. -/
theorem write_append_inj {s s' : Sexp} {rest rest' : Bytes} (h : s.Readable) (h' : s'.Readable)
    (hr : IsStop rest) (hr' : IsStop rest') (heq : s.write ++ rest = s'.write ++ rest') :
    s = s' ∧ rest = rest' := by
  match s, s', h, h' with
  | .atom b, .atom b', .atom h, .atom h' =>
    obtain ⟨rfl, hrest⟩ := h.append_inj h' hr hr' heq
    exact ⟨rfl, hrest⟩
  | .atom b, .list items, .atom h, .list _ => exact absurd heq (IsAtom.append_ne_write h _ _ _)
  | .list items, .atom b, .list _, .atom h => exact absurd heq.symm (IsAtom.append_ne_write h _ _ _)
  | .list [], .list [], .list _, .list _ => exact ⟨rfl, List.append_cancel_left heq⟩
  | .list [], .list (s' :: more'), .list _, .list h' =>
    have htail : byte ')' :: rest = s'.write ++ (writeMore more' ++ rest') := by
      simpa [write] using heq
    exact absurd htail.symm ((h' s' List.mem_cons_self).write_append_ne _ _)
  | .list (s :: more), .list [], .list h, .list _ =>
    have htail : s.write ++ (writeMore more ++ rest) = byte ')' :: rest' := by
      simpa [write] using heq
    exact absurd htail ((h s List.mem_cons_self).write_append_ne _ _)
  | .list (s :: more), .list (s' :: more'), .list h, .list h' =>
    -- The first item is written like one that follows another, but for the mark before it.
    have htail : writeMore (s :: more) ++ rest = writeMore (s' :: more') ++ rest' :=
      congrArg (byte ' ' :: ·) (List.cons.inj heq).2
    obtain ⟨hitems, hrest⟩ := writeMore_append_inj h h' htail
    exact ⟨congrArg list hitems, hrest⟩

theorem writeMore_append_inj {items items' : List Sexp} {rest rest' : Bytes}
    (h : ∀ s ∈ items, s.Readable) (h' : ∀ s ∈ items', s.Readable)
    (heq : writeMore items ++ rest = writeMore items' ++ rest') :
    items = items' ∧ rest = rest' := by
  match items, items' with
  | [], [] => exact ⟨rfl, List.append_cancel_left heq⟩
  | [], s' :: more' => exact absurd (List.cons.inj heq).1 (by decide)
  | s :: more, [] => exact absurd (List.cons.inj heq).1 (by decide)
  | s :: more, s' :: more' =>
    obtain ⟨hs, hm⟩ := List.forall_mem_cons.mp h
    obtain ⟨hs', hm'⟩ := List.forall_mem_cons.mp h'
    have hitems : s.write ++ (writeMore more ++ rest) = s'.write ++ (writeMore more' ++ rest') := by
      simpa [writeMore] using heq
    obtain ⟨rfl, htail⟩ := write_append_inj hs hs' (isStop_writeMore more rest)
      (isStop_writeMore more' rest') hitems
    obtain ⟨rfl, hrest⟩ := writeMore_append_inj hm hm' htail
    exact ⟨rfl, hrest⟩

end

theorem write_inj {s s' : Sexp} (h : s.Readable) (h' : s'.Readable) :
    s.write = s'.write ↔ s = s' := by
  refine ⟨fun heq => ?_, congrArg write⟩
  have heq : s.write ++ [] = s'.write ++ [] := by rw [heq]
  exact (write_append_inj h h' isStop_nil isStop_nil heq).1

/-! ### Parts in parentheses -/

theorem join_cons (b : Bytes) (rest : List Bytes) :
    Bytes.join (text " ") (b :: rest) = b ++ rest.flatMap (byte ' ' :: ·) := by
  have hblank : text " " = [byte ' '] := by decide
  rw [hblank]
  induction rest generalizing b with
  | nil => simp [Bytes.join]
  | cons b' rest ih => simp [Bytes.join, ih]

theorem writeMore_eq (items : List Sexp) :
    writeMore items = (items.map write).flatMap (byte ' ' :: ·) ++ [byte ')'] := by
  induction items with
  | nil => rfl
  | cons s items ih => simp [writeMore, ih]

theorem write_list (items : List Sexp) :
    (list items).write = byte '(' :: Bytes.join (text " ") (items.map write) ++ [byte ')'] := by
  cases items with
  | nil => rfl
  | cons s items => simp [write, writeMore_eq, join_cons]

@[simp]
theorem readable_atom {b : Bytes} : (atom b).Readable ↔ IsAtom b :=
  ⟨fun | .atom h => h, .atom⟩

@[simp]
theorem readable_list {items : List Sexp} : (list items).Readable ↔ ∀ s ∈ items, s.Readable :=
  ⟨fun | .list h => h, .list⟩

theorem readable_of_head {head : Bytes} {items : List Sexp} (hh : IsWord head)
    (hi : ∀ s ∈ items, s.Readable) : (list (.atom head :: items)).Readable :=
  .list (List.forall_mem_cons.mpr ⟨.atom (.word hh), hi⟩)

theorem Readable.write_ne_nil {s : Sexp} (h : s.Readable) : s.write ≠ [] := by
  cases h with
  | atom h =>
    obtain ⟨x, more, rfl, -⟩ := h.exists_cons
    simp [write]
  | list => simp [write_list]

theorem filter_map_write {items : List Sexp} (h : ∀ s ∈ items, s.Readable) :
    (items.map write).filter (!·.isEmpty) = items.map write := by
  refine List.filter_eq_self.mpr fun b hb => ?_
  obtain ⟨s, hs, rfl⟩ := List.mem_map.mp hb
  simpa using (h s hs).write_ne_nil

theorem parenthesized_eq_write {head : Bytes} {items : List Sexp}
    (h : (list (.atom head :: items)).Readable) :
    parenthesized head (items.map write) = (list (.atom head :: items)).write := by
  have hparts : (head :: items.map write).filter (!·.isEmpty) = (atom head :: items).map write :=
    filter_map_write (readable_list.mp h)
  rw [parenthesized, hparts, write_list]

theorem parenthesized_nil_eq_write {items : List Sexp} (h : (list items).Readable) :
    parenthesized [] (items.map write) = (list items).write := by
  have hparts : ([] :: items.map write).filter (!·.isEmpty) = items.map write :=
    filter_map_write (readable_list.mp h)
  rw [parenthesized, hparts, write_list]

end Sexp

end ScriptFront
