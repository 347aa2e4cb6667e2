import ScriptFront.Parse.Cursor
import ScriptFront.Parse.Progress

/-! # The part of a list of tokens that is parsed

What counts of a list of tokens is its body, the tokens before the first end of input, and the
token that ends it.
-/

namespace ScriptFront

open Parse

/-- No token of the list ends the input. -/
def WithoutEnd (ts : List Token) : Prop := ∀ t ∈ ts, t.kind ≠ .eof

@[simp]
theorem withoutEnd_nil : WithoutEnd [] := by
  simp [WithoutEnd]

@[simp]
theorem withoutEnd_cons {t : Token} {ts : List Token} :
    WithoutEnd (t :: ts) ↔ t.kind ≠ .eof ∧ WithoutEnd ts := by
  simp [WithoutEnd]

@[simp]
theorem withoutEnd_append {ts us : List Token} :
    WithoutEnd (ts ++ us) ↔ WithoutEnd ts ∧ WithoutEnd us := by
  simp only [WithoutEnd, List.mem_append]
  constructor
  · intro h
    exact ⟨fun t ht => h t (Or.inl ht), fun t ht => h t (Or.inr ht)⟩
  · rintro ⟨ht, hu⟩ t (h | h)
    · exact ht t h
    · exact hu t h

namespace Cursor

theorem takeWhile_of_withoutEnd {ts : List Token} (h : WithoutEnd ts) :
    ts.takeWhile (!isEnding ·) = ts := by
  induction ts with
  | nil => rfl
  | cons t ts ih =>
    obtain ⟨ht, hs⟩ := withoutEnd_cons.mp h
    rw [List.takeWhile_cons_of_pos (by simp [isEnding, ht]), ih hs]

theorem ofTokens_append_cons {ts : List Token} (hs : WithoutEnd ts) {ending : Token}
    (he : ending.kind = .eof) (after : List Token) :
    ofTokens (ts ++ ending :: after) = ⟨ts, ending⟩ := by
  have hn : ∀ t ∈ ts, isEnding t = false := by
    intro t ht
    simp [isEnding, hs t ht]
  have hp : isEnding ending = true := by simp [isEnding, he]
  have hw : (ts ++ ending :: after).takeWhile (!isEnding ·) = ts := by
    rw [List.takeWhile_append_of_pos (by simpa using hn)]
    simp [hp]
  have hf : (ts ++ ending :: after).find? isEnding = some ending := by
    rw [List.find?_append, List.find?_eq_none.mpr (by simpa using hn)]
    simp [hp]
  rw [ofTokens, hw, hf]
  rfl

theorem parse_eq {c : Cursor} {stmts : List Stmt} {reports : List Report} {rest : List Token}
    (h : program c.rest = .done stmts reports rest) :
    c.parse = ⟨stmts, c.located reports, ⟨rest, c.ending⟩⟩ := by
  rw [parse, h]

end Cursor

end ScriptFront
