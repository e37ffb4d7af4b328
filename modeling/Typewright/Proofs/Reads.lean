import Typewright.Grammar.Stmt
import Typewright.Proofs.Syntax

/-!
# Which tokens an action reads

`Cursor.Reads c ts d` says that the tokens `ts` stand between the cursors `c` and `d`.  That an
action follows a rule of the grammar is said with it in both directions: if the action comes from
`c` to `d`, then the tokens between them spell what it gives (`Parse.Sound`), and if tokens that
spell something stand between `c` and `d`, then the action comes from `c` to `d` and gives it.

A cursor does not move on from the last token, so an action that moves on there reads nothing.  In a
list of tokens that is `Cursor.Closed` this is no concern: only the end of the text is last, and no
rule moves on from that.

Tokens between cursors are used, and not the list of tokens that is left, since the two directions
need them in different ways.  Soundness builds up the list of tokens from the pieces that were read
(`Cursor.Reads.trans`), and completeness starts with the list and looks for the cursors in between
(`Cursor.Reads.split`).  In both, a look at the number of tokens that are left is enough to see that
there is fuel for the rest.
-/

set_option autoImplicit false

namespace Typewright

/-! ## Moving over tokens

The relation, its composition and decomposition, and the lengths that go with it. -/

namespace Cursor

/-- The tokens from the current one of `c` up to the current one of `d`, without that. -/
inductive Reads : Cursor → List Token → Cursor → Prop
  | nil {c : Cursor} : Reads c [] c
  | cons {c d : Cursor} {ts : List Token} (hc : c.rest ≠ []) (h : Reads c.next ts d) :
      Reads c (c.current :: ts) d

/-- Moving on leaves one token less. -/
theorem length_rest_next {c : Cursor} (h : c.rest ≠ []) :
    c.rest.length = c.next.rest.length + 1 := by
  obtain ⟨t, rest, m⟩ := c
  cases rest with
  | nil => exact absurd rfl h
  | cons u us => rfl

namespace Reads

variable {c d e : Cursor} {ts us : List Token}

/-- Tokens that are read one after the other. -/
theorem trans (h : c.Reads ts d) (h' : d.Reads us e) : c.Reads (ts ++ us) e := by
  induction h with
  | nil => exact h'
  | cons hc _ ih => exact .cons hc (ih h')

/-- Between two cursors there is one for every way to cut the tokens. -/
theorem split (h : c.Reads (ts ++ us) e) : ∃ d, c.Reads ts d ∧ d.Reads us e := by
  induction ts generalizing c with
  | nil => exact ⟨c, .nil, h⟩
  | cons t ts ih =>
    cases h with
    | cons hc h =>
      obtain ⟨d, hd, he⟩ := ih h
      exact ⟨d, .cons hc hd, he⟩

/-- Of the tokens that are left, those that are read come first. -/
theorem length_rest (h : c.Reads ts d) : c.rest.length = ts.length + d.rest.length := by
  induction h with
  | nil => simp
  | cons hc _ ih =>
    rw [length_rest_next hc, ih, List.length_cons]
    omega

theorem length_rest_le (h : c.Reads ts d) : d.rest.length ≤ c.rest.length := by
  rw [h.length_rest]
  omega

/-- Between two cursors there is one at every token. -/
theorem split_cons {t : Token} (h : c.Reads (ts ++ t :: us) e) :
    ∃ d, c.Reads ts d ∧ d.current = t ∧ d.next.Reads us e ∧ d.rest.length ≤ c.rest.length ∧
      d.next.rest.length < d.rest.length := by
  obtain ⟨d, hd, he⟩ := h.split
  cases he with
  | cons hrest he =>
    exact ⟨d, hd, rfl, he, hd.length_rest_le, Nat.lt_of_lt_of_eq (Nat.lt_succ_self _)
      (length_rest_next hrest).symm⟩

end Reads

section Starts

open Syntax

variable {P : Kind → Prop} {c d : Cursor} {ts : List Token}

/-- The current token is the first one that is read. -/
theorem kind_of_starts (h : Starts P ts) (hr : c.Reads ts d) : P c.kind := by
  obtain ⟨t, us, rfl, ht⟩ := h
  cases hr
  exact ht

theorem length_rest_lt_of_starts (h : Starts P ts) (hr : c.Reads ts d) :
    d.rest.length < c.rest.length := by
  obtain ⟨t, us, rfl, -⟩ := h
  rw [hr.length_rest, List.length_cons]
  omega

end Starts

/-- The last token is the end of the text. -/
structure Closed (c : Cursor) : Prop where
  rest_ne_nil : ∀ {ts : List Token} {d : Cursor}, c.Reads ts d → d.kind ≠ .endOfText → d.rest ≠ []

namespace Closed

variable {c d : Cursor} {ts : List Token}

theorem of_reads (h : c.Closed) (hd : c.Reads ts d) : d.Closed :=
  ⟨fun he hkind ↦ h.rest_ne_nil (hd.trans he) hkind⟩

/-- A list of tokens stays closed. -/
theorem next (h : c.Closed) : c.next.Closed := by
  by_cases hc : c.rest = []
  · have hkind : c.kind = .endOfText :=
      Decidable.byContradiction fun hne ↦ h.rest_ne_nil .nil hne hc
    have hnext : c.next = ⟨c.current, [], c.moves + 1⟩ := by rw [Cursor.next, hc]
    rw [hnext]
    refine ⟨fun hr hne ↦ ?_⟩
    cases hr with
    | nil => exact absurd hkind hne
    | cons hc _ => exact absurd rfl hc
  · exact h.of_reads (.cons hc .nil)

/-- Moving on from any other token than the end of the text reads it. -/
theorem reads_next (h : c.Closed) (hkind : c.kind ≠ .endOfText) :
    c.Reads [c.current] c.next :=
  .cons (h.rest_ne_nil .nil hkind) .nil

theorem reads_cons (h : c.Closed) {k : Kind} (hkind : c.kind = k) (hk : k ≠ .endOfText)
    (hr : c.next.Reads ts d) : c.Reads (c.current :: ts) d :=
  .cons (h.rest_ne_nil .nil (hkind ▸ hk)) hr

end Closed

end Cursor

/-! ## Runs of actions

An action is a state monad with errors.  The equations are stated for runs that succeed, in the form
that simplification can use: a sequence ends well exactly if both actions do.  With them a
hypothesis about a run is turned into the facts about its steps. -/

namespace Parse

variable {α β : Type}

/-- A sequence of actions whose first one is known. -/
theorem bind_of_ok {m : Parse α} {c d : Cursor} {a : α} (h : m c = .ok a d) (f : α → Parse β) :
    (m >>= f) c = f a d := by
  simp [bind, EStateM.bind, h]

/-- A sequence of two actions comes to an end if both do. -/
@[simp] theorem bind_eq_ok {m : Parse α} {f : α → Parse β} {c d : Cursor} {b : β} :
    (m >>= f) c = .ok b d ↔ ∃ a e, m c = .ok a e ∧ f a e = .ok b d := by
  cases h : m c with
  | ok a e =>
    rw [bind_of_ok h]
    constructor
    · intro hf
      exact ⟨a, e, rfl, hf⟩
    · rintro ⟨_, _, ⟨⟩, hf⟩
      exact hf
  | error s e => simp [bind, EStateM.bind, h]

theorem ite_bind_of_ok {P : Prop} [Decidable P] {m m' : Parse α} {c d : Cursor} {a : α}
    (h : (if P then m else m') c = .ok a d) (f : α → Parse β) :
    (if P then m >>= f else m' >>= f) c = f a d := by
  by_cases hP : P
  · rw [if_pos hP] at h ⊢
    exact bind_of_ok h f
  · rw [if_neg hP] at h ⊢
    exact bind_of_ok h f

/-- One of two actions and then what is the same for both. -/
theorem ite_bind_eq_ok {P : Prop} [Decidable P] {m m' : Parse α} {f : α → Parse β} {c d : Cursor}
    {b : β} : (if P then m >>= f else m' >>= f) c = .ok b d ↔
      ∃ a e, (if P then m else m') c = .ok a e ∧ f a e = .ok b d := by
  by_cases h : P
  · rw [if_pos h, if_pos h, bind_eq_ok]
  · rw [if_neg h, if_neg h, bind_eq_ok]

@[simp] theorem pure_eq_ok {a b : α} {c d : Cursor} :
    (pure a : Parse α) c = .ok b d ↔ a = b ∧ c = d := by
  simp [pure, EStateM.pure]

@[simp] theorem throw_eq_ok {s : Stop} {b : α} {c d : Cursor} :
    ((throw s : Parse α) c = .ok b d) ↔ False := by
  show EStateM.Result.error s c = .ok b d ↔ False
  simp

@[simp] theorem fail_eq_ok {x : Diagnostic} {b : α} {c d : Cursor} :
    ((fail x : Parse α) c = .ok b d) ↔ False := by
  simp

@[simp] theorem unexpected_eq_ok {message : String} {b : α} {c d : Cursor} :
    ((unexpected message : Parse α) c = .ok b d) ↔ False := by
  simp [unexpected]

@[simp] theorem expect_eq_ok {k : Kind} {t : Token} {c d : Cursor} :
    expect k c = .ok t d ↔ c.kind = k ∧ c.current = t ∧ c.next = d := by
  rw [expect, expectOr_apply]
  by_cases h : c.kind = k <;> simp [h]

@[simp] theorem expectDetailed_eq_ok {k : Kind} {message : String} {t : Token} {c d : Cursor} :
    expectDetailed k message c = .ok t d ↔ c.kind = k ∧ c.current = t ∧ c.next = d := by
  have hget : (get : Parse Cursor) c = .ok c c := rfl
  rw [expectDetailed, bind_of_ok hget, expectOr_apply]
  by_cases h : c.kind = k <;> simp [h]

theorem expect_of_kind {k : Kind} {c : Cursor} (h : c.kind = k) :
    expect k c = .ok c.current c.next :=
  expect_eq_ok.2 ⟨h, rfl, rfl⟩

theorem expectDetailed_of_kind {k : Kind} {c : Cursor} (h : c.kind = k) (message : String) :
    expectDetailed k message c = .ok c.current c.next :=
  expectDetailed_eq_ok.2 ⟨h, rfl, rfl⟩

theorem budgeted_apply (f : Nat → Parse α) (c : Cursor) : budgeted f c = f (budget c) c := rfl

/-- The budget of an action is enough for all tokens that are left. -/
theorem length_rest_lt_budget (c : Cursor) : c.rest.length < budget c :=
  Nat.lt_add_of_pos_right (by decide)

/-- What the action gives is spelt by the tokens that it moves over. -/
def Sound (m : Parse α) (R : List Token → α → Prop) : Prop :=
  ∀ ⦃c d : Cursor⦄ ⦃a : α⦄, c.Closed → m c = .ok a d → ∃ ts, c.Reads ts d ∧ R ts a

section Sound

variable {m : Parse α} {R : List Token → α → Prop}

/-- What is sound for a language is so for a larger one. -/
theorem Sound.imp {S : List Token → α → Prop} (hm : Sound m R) (hRS : ∀ {ts a}, R ts a → S ts a) :
    Sound m S := by
  intro c d a hc h
  obtain ⟨ts, hts, ha⟩ := hm hc h
  exact ⟨ts, hts, hRS ha⟩

/-- What may be left out before a token of kind `k`. -/
theorem Sound.ite_pure (hm : Sound m R) {missing : α} (hmissing : R [] missing) {k : Kind}
    {c d : Cursor} {a : α} (hc : c.Closed)
    (h : (if c.kind = k then pure missing else m) c = .ok a d) : ∃ ts, c.Reads ts d ∧ R ts a := by
  by_cases hk : c.kind = k
  · rw [if_pos hk, pure_eq_ok] at h
    obtain ⟨rfl, rfl⟩ := h
    exact ⟨[], .nil, hmissing⟩
  · rw [if_neg hk] at h
    exact hm hc h

end Sound

end Parse

end Typewright
