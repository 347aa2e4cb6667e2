import ScriptFront.Proofs.Parse.Success

/-! # Postconditions

What the value of a parser and the tokens it leaves satisfy whenever it succeeds. A postcondition
of a parser follows from those of its parts.
-/

namespace ScriptFront.Parser

open Parse

variable {α β : Type} {p : Parser α} {P : α → Prop} {post : α → List Token → Prop}

/-- Whenever the parser succeeds, its value and the tokens left are as required. -/
def Gives (p : Parser α) (post : α → List Token → Prop) : Prop :=
  Ensures p fun _ a _ rest => post a rest

namespace Gives

theorem mono {post' : α → List Token → Prop} (h : Gives p post)
    (hp : ∀ a rest, post a rest → post' a rest) : Gives p post' := by
  intro ts a reports rest hr
  exact hp a rest (h hr)

theorem any : Gives p fun _ _ => True := by
  intro ts a reports rest _
  trivial

theorem pure {a : α} (h : ∀ rest, post a rest) : Gives (Pure.pure a : Parser α) post := by
  intro ts b reports rest hr
  obtain ⟨rfl, -, -⟩ := pure_eq_done_iff.mp hr
  exact h rest

theorem fail (missing : Expectation) : Gives (Parser.fail missing : Parser α) post := by
  intro ts a reports rest hr
  cases hr

theorem bind {f : α → Parser β} {post : β → List Token → Prop} (hp : Gives p fun a _ => P a)
    (hf : ∀ a, P a → Gives (f a) post) : Gives (p >>= f) post := by
  intro ts b reports rest hr
  obtain ⟨a, earlier, middle, later, h₁, h₂, -⟩ := bind_eq_done_iff.mp hr
  exact hf a (hp h₁) h₂

theorem map {f : α → β} {post' : β → List Token → Prop} (hp : Gives p post)
    (hf : ∀ a rest, post a rest → post' (f a) rest) : Gives (f <$> p) post' := by
  intro ts b reports rest hr
  obtain ⟨a, ha, rfl⟩ := map_eq_done_iff.mp hr
  exact hf a rest (hp ha)

theorem expect (kind : Kind) (missing : Expectation) :
    Gives (Parser.expect kind missing) fun t _ => t.kind = kind := by
  intro ts t reports rest hr
  exact (expect_eq_done_iff.mp hr).2.1

theorem accept (wanted : Kind → Bool) :
    Gives (Parser.accept wanted) fun o _ => ∀ t ∈ o, wanted t.kind = true := by
  intro ts o reports rest hr t ht
  cases ts with
  | nil =>
    cases hr
    cases ht
  | cons u ts =>
    rw [Parser.accept] at hr
    split at hr
    · rename_i hw
      cases hr
      cases ht
      exact hw
    · cases hr
      cases ht

theorem dispatch {choose : Token → Option (Parser α)}
    (hc : ∀ t q, choose t = some q → Gives q post) (hp : Gives p post) :
    Gives (Parser.dispatch choose p) post := by
  intro ts a reports rest hr
  rcases dispatch_eq_iff.mp hr with ⟨t, tail, q, rfl, hq, h⟩ | ⟨-, h⟩
  · exact hc t q hq h
  · exact hp h

theorem repeatFrom {step : α → Parser (Option α)}
    (hs : ∀ a, P a → Gives (step a) fun o _ => ∀ b ∈ o, P b) {a : α} (ha : P a) :
    Gives (Parser.repeatFrom step a) fun b _ => P b := by
  intro ts b reports rest hr
  have h := steps_of_repeatFrom hr
  clear hr
  induction h with
  | refl a ts => exact ha
  | stop h => exact ha
  | step h _ ih => exact ih (hs _ ha h _ rfl)

theorem fixed {body : Parser α → Parser α} (h : ∀ p, Gives p post → Gives (body p) post) :
    Gives (Parser.fixed body) post :=
  Ensures.fixed h

theorem recovering (hp : Gives p fun a _ => P a) :
    Gives (Parse.recovering p) fun o _ => ∀ a ∈ o, P a := by
  intro ts o reports rest hr a ha
  obtain rfl : o = some a := ha
  exact hp (recovering_eq_some_iff.mp hr)

end Gives

end ScriptFront.Parser
