import ScriptFront.Proofs.Parse.Input
import ScriptFront.Proofs.Parse.Success
import ScriptFront.Proofs.Slice.Parser

/-! # An index and the tokens left

While what is left is an end of the body of the tokens, a step by index does what the parser on
the tokens left does. So it ends, and it looks only at tokens that are there.
-/

namespace ScriptFront.Slice

open Parse

/-- Tokens with an end of input. What follows it is arbitrary. -/
structure Input where
  body : List Token
  ending : Token
  after : List Token
  withoutEnd : WithoutEnd body
  isEnding : ending.kind = .eof

namespace Input

def tokens (c : Input) : List Token := c.body ++ c.ending :: c.after

/-- The state in which `rest` is left of the body. -/
def state (c : Input) (rest : List Token) (reported : List Diagnostic) : State :=
  ⟨c.tokens, c.body.length - rest.length, reported⟩

/-- What the reply of a parser on the tokens left stands for. -/
def result {α : Type} (c : Input) (reported : List Diagnostic) :
    Reply α → Except Diagnostic α × State
  | .done a reports rest => (.ok a, c.state rest (reported ++ reports.map (·.diagnostic c.ending)))
  | .failed missing reports rest =>
    let d := Report.diagnostic c.ending ⟨rest.head?, .expected missing⟩
    (.error d, c.state rest (reported ++ reports.map (·.diagnostic c.ending) ++ [d]))

end Input

variable {α β : Type} {c : Input} {t : Token} {rest : List Token} {reported : List Diagnostic}

/-! ### The cursor -/

theorem getElem?_length_sub_length {xs ys zs : List Token} (h : ys <:+ xs) :
    (xs ++ zs)[xs.length - ys.length]? = (ys ++ zs).head? := by
  obtain ⟨before, rfl⟩ := h
  rw [List.length_append, Nat.add_sub_cancel, List.append_assoc, List.getElem?_append_right]
  · rw [Nat.sub_self, List.head?_eq_getElem?]
  · exact Nat.le_refl _

theorem peek_state (h : rest <:+ c.body) :
    peek (c.state rest reported) = some (rest.head?.getD c.ending, c.state rest reported) := by
  have hg : c.tokens[c.body.length - rest.length]? = some (rest.head?.getD c.ending) := by
    rw [Input.tokens, getElem?_length_sub_length h]
    cases rest <;> rfl
  simp only [peek, Input.state, hg, Option.map_some]

theorem previous_state (h : t :: rest <:+ c.body) :
    previous (c.state rest reported) = some (t, c.state rest reported) := by
  have hl := h.length_le
  rw [List.length_cons] at hl
  have hg : c.tokens[c.body.length - rest.length - 1]? = some t := by
    rw [Nat.sub_sub, Input.tokens, ← List.length_cons (a := t), getElem?_length_sub_length h]
    rfl
  have hz : c.body.length - rest.length ≠ 0 := by omega
  simp only [previous, Input.state, if_neg hz, hg, Option.map_some]

theorem kind_ne_eof (h : t :: rest <:+ c.body) : t.kind ≠ .eof :=
  c.withoutEnd t (h.mem List.mem_cons_self)

theorem run_bind {m : Run α} {f : α → Run β} {a : α} {s s' : State} (h : m s = some (a, s')) :
    (m >>= f) s = f a s' := by
  change (m s).bind _ = _
  rw [h]
  rfl

theorem isAtEnd_state (h : rest <:+ c.body) :
    isAtEnd (c.state rest reported) = some (rest.isEmpty, c.state rest reported) := by
  rw [isAtEnd, run_bind (peek_state h)]
  cases rest with
  | nil =>
    have hk : (c.ending.kind == .eof) = true := by simp [c.isEnding]
    exact congrArg (fun b => some (b, c.state [] reported)) hk
  | cons t rest =>
    have hk : (t.kind == .eof) = false := by simp [kind_ne_eof h]
    exact congrArg (fun b => some (b, c.state (t :: rest) reported)) hk

theorem state_cons (h : t :: rest <:+ c.body) :
    { c.state (t :: rest) reported with current := (c.state (t :: rest) reported).current + 1 } =
      c.state rest reported := by
  have hl := h.length_le
  rw [List.length_cons] at hl
  simp only [Input.state, List.length_cons, State.mk.injEq, true_and, and_true]
  omega

theorem advance_state (h : t :: rest <:+ c.body) :
    advance (c.state (t :: rest) reported) = some (t, c.state rest reported) := by
  rw [advance, run_bind (isAtEnd_state h)]
  let moved : State :=
    { c.state (t :: rest) reported with current := (c.state (t :: rest) reported).current + 1 }
  change previous moved = _
  rw [show moved = c.state rest reported from state_cons h, previous_state h]

theorem nextIs_state (wanted : Kind → Bool) (h : rest <:+ c.body) :
    nextIs wanted (c.state rest reported) =
      some (rest.head?.any (wanted ·.kind), c.state rest reported) := by
  rw [nextIs, run_bind (isAtEnd_state h)]
  cases rest with
  | nil => rfl
  | cons t rest =>
    change (peek >>= _) _ = _
    rw [run_bind (peek_state h)]
    rfl

theorem accept_state_of_lacks {wanted : Kind → Bool} (h : rest <:+ c.body)
    (hl : Parser.Lacks wanted rest) :
    accept wanted (c.state rest reported) = some (false, c.state rest reported) := by
  have hn : rest.head?.any (wanted ·.kind) = false := by
    cases rest with
    | nil => rfl
    | cons t rest => simpa using hl
  rw [accept, run_bind (nextIs_state wanted h), hn]
  rfl

theorem accept_state_cons {wanted : Kind → Bool} (h : t :: rest <:+ c.body)
    (hw : wanted t.kind = true) :
    accept wanted (c.state (t :: rest) reported) = some (true, c.state rest reported) := by
  have hn : (t :: rest).head?.any (wanted ·.kind) = true := by simpa using hw
  rw [accept, run_bind (nextIs_state wanted h), hn]
  change (advance >>= _) _ = _
  rw [run_bind (advance_state h)]
  rfl

/-! ### Sequences -/

theorem bind_ok {m : Attempt α} {f : α → Attempt β} {a : α} {s s' : State}
    (h : m s = some (.ok a, s')) : (m >>= f) s = f a s' := by
  change (m s).bind _ = _
  rw [h]
  rfl

theorem bind_error {m : Attempt α} {f : α → Attempt β} {d : Diagnostic} {s s' : State}
    (h : m s = some (.error d, s')) : (m >>= f) s = some (.error d, s') := by
  change (m s).bind _ = _
  rw [h]
  rfl

theorem lift_ok {m : Run α} {a : α} {s s' : State} (h : m s = some (a, s')) :
    (liftM m : Attempt α) s = some (.ok a, s') := by
  change (m s).bind _ = _
  rw [h]
  rfl

theorem lift_bind (m : Run α) (f : α → Run β) :
    (liftM (m >>= f) : Attempt β) = (do
      let a ← liftM m
      liftM (f a)) := by
  funext s
  change ((m s).bind _).bind _ = ((m s).bind _).bind _
  cases m s <;> rfl

theorem of_lift_ok {m : Run α} {a : α} {s s' : State}
    (h : (liftM m : Attempt α) s = some (.ok a, s')) : m s = some (a, s') := by
  change (m s).bind _ = _ at h
  cases hm : m s with
  | none =>
    rw [hm] at h
    cases h
  | some r =>
    rw [hm] at h
    cases h
    rfl

/-! ### Runs that end -/

/-- From some depth on, the step gives the result. -/
def Ends {ρ : Type} (m : Nat → State → Option ρ) (s : State) (r : ρ) : Prop :=
  ∃ k, ∀ n, k ≤ n → m n s = some r

namespace Ends

variable {ρ : Type} {s s' : State} {r : ρ}

theorem of_eq {m : State → Option ρ} (h : m s = some r) : Ends (fun _ => m) s r :=
  ⟨0, fun _ _ => h⟩

theorem congr {m m' : Nat → State → Option ρ} (h : ∀ n, m n s = m' n s') (hm : Ends m' s' r) :
    Ends m s r := by
  obtain ⟨k, hk⟩ := hm
  exact ⟨k, fun n hn => (h n).trans (hk n hn)⟩

theorem succ {m m' : Nat → State → Option ρ} (h : ∀ n, m (n + 1) = m' n) (hm : Ends m' s r) :
    Ends m s r := by
  obtain ⟨k, hk⟩ := hm
  refine ⟨k + 1, fun n hn => ?_⟩
  cases n with
  | zero => exact absurd hn (Nat.not_succ_le_zero k)
  | succ n =>
    rw [h]
    exact hk n (Nat.le_of_succ_le_succ hn)

theorem bind {m : Nat → Attempt α} {f : Nat → α → Attempt β} {a : α}
    {r : Except Diagnostic β × State} (hm : Ends m s (.ok a, s')) (hf : Ends (f · a) s' r) :
    Ends (fun n => m n >>= f n) s r := by
  obtain ⟨k, hk⟩ := hm
  obtain ⟨l, hl⟩ := hf
  refine ⟨max k l, fun n hn => ?_⟩
  exact (bind_ok (hk n (Nat.le_trans (Nat.le_max_left k l) hn))).trans
    (hl n (Nat.le_trans (Nat.le_max_right k l) hn))

theorem error {m : Nat → Attempt α} {f : Nat → α → Attempt β} {d : Diagnostic}
    (hm : Ends m s (.error d, s')) : Ends (fun n => m n >>= f n) s (.error d, s') := by
  obtain ⟨k, hk⟩ := hm
  exact ⟨k, fun n hn => bind_error (hk n hn)⟩

theorem run_bind {m : Nat → Run α} {f : Nat → α → Run β} {a : α} {r : β × State}
    (hm : Ends m s (a, s')) (hf : Ends (f · a) s' r) : Ends (fun n => m n >>= f n) s r := by
  obtain ⟨k, hk⟩ := hm
  obtain ⟨l, hl⟩ := hf
  refine ⟨max k l, fun n hn => ?_⟩
  exact (Slice.run_bind (hk n (Nat.le_trans (Nat.le_max_left k l) hn))).trans
    (hl n (Nat.le_trans (Nat.le_max_right k l) hn))

theorem lift {m : Nat → Run α} {a : α} (hm : Ends m s (a, s')) :
    Ends (fun n => (liftM (m n) : Attempt α)) s (.ok a, s') := by
  obtain ⟨k, hk⟩ := hm
  exact ⟨k, fun n hn => lift_ok (hk n hn)⟩

theorem of_lift {m : Nat → Run α} {a : α}
    (hm : Ends (fun n => (liftM (m n) : Attempt α)) s (.ok a, s')) : Ends m s (a, s') := by
  obtain ⟨k, hk⟩ := hm
  exact ⟨k, fun n hn => of_lift_ok (hk n hn)⟩

end Ends

/-! ### Steps that follow a parser -/

/-- Where fewer than `n` tokens are left and they are as `here` requires, the step ends with what
the parser replies, and that leaves an end of the tokens. -/
def Refines (c : Input) (n : Nat) (here : List Token → Prop) (m : Nat → Attempt α)
    (p : Parser α) : Prop :=
  ∀ rest reported, rest <:+ c.body → rest.length < n → here rest →
    Ends m (c.state rest reported) (c.result reported (p rest)) ∧ (p rest).rest <:+ rest

def anywhere : List Token → Prop := fun _ => True

/-- The token read last is `t`. -/
def justAfter (c : Input) (t : Token) : List Token → Prop := fun rest => t :: rest <:+ c.body

theorem result_done {a : α} {reports : List Report} :
    c.result reported (.done a reports rest) =
      (.ok a, c.state rest (reported ++ reports.map (·.diagnostic c.ending))) := rfl

theorem result_after {earlier : List Report} (r : Reply α) :
    c.result reported (r.after earlier) =
      c.result (reported ++ earlier.map (·.diagnostic c.ending)) r := by
  cases r <;> simp [Reply.after, Input.result]

theorem pure_state (a : α) :
    (pure a : Attempt α) (c.state rest reported) = some (c.result reported (.done a [] rest)) := by
  rw [result_done, List.map_nil, List.append_nil]
  rfl

theorem errorAt_state (rest : List Token) (missing : Expectation) :
    (errorAt (rest.head?.getD c.ending) (.expected missing) : Attempt α) (c.state rest reported) =
      some (c.result reported (.failed missing [] rest)) := by
  simp only [Input.result, List.map_nil, List.append_nil]
  rfl

namespace Refines

variable {n : Nat} {here : List Token → Prop} {m : Nat → Attempt α} {p : Parser α}

theorem mono {k : Nat} {here' : List Token → Prop} (h : Refines c n here m p) (hk : k ≤ n)
    (hh : ∀ rest, here' rest → here rest) : Refines c k here' m p :=
  fun rest reported hs hl hr => h rest reported hs (Nat.lt_of_lt_of_le hl hk) (hh rest hr)

theorem weaken (h : Refines c n anywhere m p) : Refines c n here m p :=
  h.mono (Nat.le_refl n) fun _ _ => trivial

theorem succ (h : Refines c (n + 1) here m p) : Refines c n here m p :=
  h.mono (Nat.le_succ n) fun _ hr => hr

theorem zero : Refines c 0 here m p := fun _ _ _ hl => absurd hl (Nat.not_lt_zero _)

theorem deeper {m' : Nat → Attempt α} (h : ∀ k, m (k + 1) = m' k) (hm : Refines c n here m' p) :
    Refines c n here m p := by
  intro rest reported hs hl hr
  obtain ⟨he, hw⟩ := hm rest reported hs hl hr
  exact ⟨he.succ h, hw⟩

theorem pure (a : α) : Refines c n here (fun _ => (Pure.pure a : Attempt α)) (Pure.pure a) := by
  intro rest reported _ _ _
  exact ⟨.of_eq (pure_state a), List.suffix_refl rest⟩

theorem bind {f : Nat → α → Attempt β} {g : α → Parser β} (hm : Refines c n here m p)
    (hf : ∀ a, Refines c n anywhere (f · a) (g a)) :
    Refines c n here (fun k => m k >>= f k) (p >>= g) := by
  intro rest reported hs hl hr
  obtain ⟨he, hw⟩ := hm rest reported hs hl hr
  cases hp : p rest with
  | failed missing reports left =>
    rw [hp] at he hw
    rw [Parser.bind_of_failed hp]
    exact ⟨he.error, hw⟩
  | done a reports left =>
    rw [hp] at he hw
    obtain ⟨he', hw'⟩ := hf a left (reported ++ reports.map (·.diagnostic c.ending))
      (hw.trans hs) (Nat.lt_of_le_of_lt hw.length_le hl) trivial
    rw [Parser.bind_of_done hp, result_after, Reply.rest_after]
    exact ⟨he.bind he', hw'.trans hw⟩

theorem map (f : α → β) (hm : Refines c n here m p) :
    Refines c n here (fun k => f <$> m k) (f <$> p) := by
  simp only [← bind_pure_comp]
  exact hm.bind fun a => pure (f a)

/-- A first step that always succeeds, where the parser has none. -/
theorem lift_bind {l : Run β} {b : β} {f : Nat → β → Attempt α}
    (hl : ∀ rest reported, rest <:+ c.body → here rest →
      l (c.state rest reported) = some (b, c.state rest reported))
    (hf : Refines c n here (f · b) p) : Refines c n here (fun k => liftM l >>= f k) p := by
  intro rest reported hs hn hr
  obtain ⟨he, hw⟩ := hf rest reported hs hn hr
  exact ⟨he.congr fun k => bind_ok (lift_ok (hl rest reported hs hr)), hw⟩

theorem previous {f : Nat → Token → Attempt α} (hf : Refines c n (justAfter c t) (f · t) p) :
    Refines c n (justAfter c t) (fun k => liftM Slice.previous >>= f k) p :=
  lift_bind (fun _ _ _ hr => previous_state hr) hf

theorem accept {wanted : Kind → Bool} {m₁ m₂ : Nat → Attempt α} {f : Option Token → Parser α}
    (hsome : ∀ t, wanted t.kind = true → Refines c n (justAfter c t) m₁ (f (some t)))
    (hnone : Refines c (n + 1) here m₂ (f none)) :
    Refines c (n + 1) here (fun k => do if ← Slice.accept wanted then m₁ k else m₂ k)
      (Parser.accept wanted >>= f) := by
  intro rest reported hs hn hr
  by_cases hl : Parser.Lacks wanted rest
  · obtain ⟨he, hw⟩ := hnone rest reported hs hn hr
    rw [Parser.accept_bind_of_lacks hl]
    exact ⟨he.congr fun k => bind_ok (lift_ok (accept_state_of_lacks hs hl)), hw⟩
  · cases rest with
    | nil => exact absurd (Parser.lacks_nil wanted) hl
    | cons t rest =>
      have hk : wanted t.kind = true := by simpa using hl
      have ht : rest <:+ t :: rest := List.suffix_cons t rest
      obtain ⟨he, hw⟩ :=
        hsome t hk rest reported (ht.trans hs) (Nat.lt_of_succ_lt_succ hn) hs
      rw [Parser.accept_bind_cons hk]
      exact ⟨he.congr fun k => bind_ok (lift_ok (accept_state_cons hs hk)), hw.trans ht⟩

theorem nextIs {kind : Kind} {m₁ m₂ : Nat → Attempt α} {f : Bool → Parser α}
    (htrue : Refines c n here m₁ (f true)) (hfalse : Refines c n here m₂ (f false)) :
    Refines c n here (fun k => do if ← Slice.nextIs (· == kind) then m₁ k else m₂ k)
      (Parser.nextIs kind >>= f) := by
  intro rest reported hs hn hr
  have hd : Parser.nextIs kind rest = .done (rest.head?.any (·.kind == kind)) [] rest := rfl
  have hi : Slice.nextIs (· == kind) (c.state rest reported) = _ := nextIs_state _ hs
  have hb (k : Nat) := bind_ok (f := fun b => if b = true then m₁ k else m₂ k) (lift_ok hi)
  rw [Parser.bind_of_done hd, Parser.after_nil]
  cases he : rest.head?.any (·.kind == kind) with
  | true =>
    rw [he] at hb
    obtain ⟨h₁, hw⟩ := htrue rest reported hs hn hr
    exact ⟨h₁.congr hb, hw⟩
  | false =>
    rw [he] at hb
    obtain ⟨h₂, hw⟩ := hfalse rest reported hs hn hr
    exact ⟨h₂.congr hb, hw⟩

theorem consume (kind : Kind) (missing : Expectation) :
    Refines c n here (fun _ => Slice.consume kind missing) (Parser.expect kind missing) := by
  intro rest reported hs hn hr
  by_cases hl : Parser.Lacks (· == kind) rest
  · have hf : Parser.expect kind missing rest = .failed missing [] rest := by
      cases rest with
      | nil => rfl
      | cons t rest => simpa [Parser.expect] using hl
    have hb : rest.head?.any (·.kind == kind) = false := by
      cases rest with
      | nil => rfl
      | cons t rest => simpa using hl
    rw [hf]
    refine ⟨.of_eq ?_, List.suffix_refl rest⟩
    rw [Slice.consume, bind_ok (lift_ok (nextIs_state _ hs)), hb, if_neg Bool.false_ne_true,
      bind_ok (lift_ok (peek_state hs)), errorAt_state]
  · cases rest with
    | nil => exact absurd (Parser.lacks_nil _) hl
    | cons t rest =>
      have hk : t.kind = kind := by simpa using hl
      have hd : Parser.expect kind missing (t :: rest) = .done t [] rest := by
        simp [Parser.expect, hk]
      have hb : (t :: rest).head?.any (·.kind == kind) = true := by simpa using hk
      rw [hd]
      refine ⟨.of_eq ?_, List.suffix_cons t rest⟩
      rw [Slice.consume, bind_ok (lift_ok (nextIs_state _ hs)), hb, if_pos rfl,
        lift_ok (advance_state hs), result_done, List.map_nil, List.append_nil]

/-- A first token that decides how to go on. -/
theorem choice {wanted others : Kind → Bool} {m₁ m₂ : Nat → Attempt α}
    {choose : Token → Option (Parser α)} {other : Parser α}
    (hfirst : ∀ t, wanted t.kind = true →
      ∃ q, choose t = some q ∧ Refines c n (justAfter c t) m₁ q)
    (hothers : Refines c (n + 1) (Parser.Lacks fun k => wanted k || others k) m₂
      (Parser.dispatch choose other)) :
    Refines c (n + 1) (Parser.Lacks others)
      (fun k => do if ← Slice.accept wanted then m₁ k else m₂ k)
      (Parser.dispatch choose other) := by
  intro rest reported hs hn hr
  by_cases hl : Parser.Lacks wanted rest
  · have ho : Parser.Lacks (fun k => wanted k || others k) rest := by
      intro t ht
      exact Bool.or_eq_false_iff.mpr ⟨hl t ht, hr t ht⟩
    obtain ⟨he, hw⟩ := hothers rest reported hs hn ho
    exact ⟨he.congr fun k => bind_ok (lift_ok (accept_state_of_lacks hs hl)), hw⟩
  · cases rest with
    | nil => exact absurd (Parser.lacks_nil _) hl
    | cons t rest =>
      have hk : wanted t.kind = true := by simpa using hl
      have ht : rest <:+ t :: rest := List.suffix_cons t rest
      obtain ⟨q, hq, hm⟩ := hfirst t hk
      obtain ⟨he, hw⟩ := hm rest reported (ht.trans hs) (Nat.lt_of_succ_lt_succ hn) hs
      rw [Parser.dispatch_cons hq]
      exact ⟨he.congr fun k => bind_ok (lift_ok (accept_state_cons hs hk)), hw.trans ht⟩

theorem noChoice {others : Kind → Bool} {choose : Token → Option (Parser α)} {other : Parser α}
    (hnone : ∀ t, others t.kind = false → choose t = none) (hother : Refines c n anywhere m other) :
    Refines c n (Parser.Lacks others) m (Parser.dispatch choose other) := by
  intro rest reported hs hn hr
  have hc : ∀ t ∈ rest.head?, choose t = none := fun t ht => hnone t (hr t ht)
  rw [Parser.dispatch_of_none hc]
  exact hother rest reported hs hn trivial

theorem of_choices (h : Refines c n (Parser.Lacks fun _ => false) m p) :
    Refines c n anywhere m p :=
  h.mono (Nat.le_refl n) fun _ _ _ _ => rfl

end Refines

end ScriptFront.Slice
