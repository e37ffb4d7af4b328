import Typewright.Proofs.Reads

/-!
# What an action decides by

An action of the grammar reads some tokens and then either gives a tree or stops, and it does so by
looking at the tokens that it reads and at the one after them.  `Parse.Accepts` and `Parse.Rejects`
say this of all lists of tokens at once: whatever comes after the token that was looked at last, the
outcome is the same.

`Parse.Decides` adds what the tokens mean.  On a list of tokens, an action either accepts tokens
that belong to a language, or it rejects a token after tokens that some continuation completes to
one of the language; the diagnostic is about the rejected token.  So the rejected token is the first
one after which all is lost.

Actions repeat themselves within a budget, and budgets differ between lists of tokens of different
length.  `Parse.Decides` therefore speaks of a family of actions, with a function that gives the
number of tokens for which the budget of each is enough.

## Why acceptance must not depend on what follows

To say that an error is found as early as possible, two lists of tokens have to be compared: the one
that is rejected, and one that has the same tokens before the error and goes on in another way.  On
both the parser has to do the same up to the error, and that is why the outcome is said of all
cursors with the given tokens ahead and not of one run.  Soundness and completeness with respect to
the grammar would not be enough.  They say that the second list is accepted, but not that the first
one is rejected at that very token.

## How decisions are put together

`Decides` is closed under the ways in which actions are built: sequences (`seq`, `bind`), a look at
the current token (`peek`), a choice, single tokens, parts that may be left out, and lists with or
without commas.  For a sequence the second action has to decide about what the first one leaves, in
a language that may depend on what was read; and whatever the first one reads there has to be a way
to complete it, so that a rejection in the second action is still after a viable beginning.
-/

set_option autoImplicit false

namespace Typewright

/-! ## Tokens ahead

A cursor is known by the tokens ahead of it, as far as an action can tell.  How many tokens it has
passed is not looked at. -/

namespace Cursor

/-- The tokens from the current one on. -/
def ahead (c : Cursor) : List Token := c.current :: c.rest

variable {c : Cursor} {t u : Token} {vs : List Token}

theorem current_of_ahead (h : c.ahead = t :: vs) : c.current = t := (List.cons.inj h).1

theorem kind_of_ahead (h : c.ahead = t :: vs) : c.kind = t.kind := by
  rw [kind, current_of_ahead h]

theorem ahead_next (h : c.ahead = t :: u :: vs) : c.next.ahead = u :: vs := by
  rw [next, (List.cons.inj h).2, ahead]

/-- The tokens ahead are those that are read and then those that are ahead of the second cursor. -/
theorem Reads.ahead {d : Cursor} {ts : List Token} (h : c.Reads ts d) :
    c.ahead = ts ++ d.ahead := by
  induction h with
  | nil => rfl
  | @cons c d ts hc _ ih =>
    obtain ⟨u, us, hus⟩ := List.exists_cons_of_ne_nil hc
    have hahead : c.ahead = c.current :: u :: us := by rw [Cursor.ahead, hus]
    rw [List.cons_append, ← ih, ahead_next hahead, hahead]

/-- The tokens between two cursors are known from those ahead of each. -/
theorem Reads.eq_of_ahead {d : Cursor} {ts us : List Token} (h : c.Reads ts d)
    (hc : c.ahead = us ++ d.ahead) : ts = us :=
  List.append_cancel_right (h.ahead.symm.trans hc)

end Cursor

namespace Syntax

/-- The list of tokens ends with the end of the text. -/
def Ends (ws : List Token) : Prop := ∃ eof ∈ ws.getLast?, eof.kind = .endOfText

theorem Ends.drop {ws ts vs : List Token} {t : Token} (h : Ends ws) (hws : ws = ts ++ t :: vs) :
    Ends (t :: vs) := by
  rwa [hws, Ends, List.getLast?_append, List.getLast?_cons, Option.some_or,
    ← List.getLast?_cons] at h

/-- Some token follows one that is not the end of the text. -/
theorem Ends.exists_cons {t : Token} {vs : List Token} (h : Ends (t :: vs))
    (ht : t.kind ≠ .endOfText) : ∃ u us, vs = u :: us := by
  cases vs with
  | nil =>
    obtain ⟨eof, heof, hkind⟩ := h
    rw [List.getLast?_singleton, Option.mem_some_iff] at heof
    exact absurd (heof ▸ hkind) ht
  | cons u us => exact ⟨u, us, rfl⟩

/-- A list that ends with the end of the text is closed. -/
theorem Ends.closed {c : Cursor} (h : Ends c.ahead) : c.Closed := by
  refine ⟨fun {ts d} hr hne hrest ↦ ?_⟩
  induction hr with
  | nil =>
    rw [Cursor.ahead, hrest] at h
    obtain ⟨_, _, hnil⟩ := h.exists_cons hne
    cases hnil
  | @cons c d ts hc _ ih =>
    obtain ⟨t, us, hus⟩ := List.exists_cons_of_ne_nil hc
    have hahead : c.ahead = [c.current] ++ t :: us := by rw [Cursor.ahead, hus]; rfl
    refine ih ?_ hne hrest
    rw [Cursor.ahead_next hahead]
    exact h.drop hahead

/-! ## Languages

Sets of lists of tokens, without the trees.  A diagnostic is about tokens that can or cannot be
completed, and which tree they would spell does not matter for that. -/

variable {α : Type}

/-- The tokens spell something. -/
def Spells (R : List Token → α → Prop) (ts : List Token) : Prop := ∃ a, R ts a

/-- One token of the kind. -/
inductive One (k : Kind) : List Token → Prop
  | mk {t : Token} (ht : t.kind = k) : One k [t]

/-- Tokens of one language and then tokens of another. -/
inductive Then (L M : List Token → Prop) : List Token → Prop
  | mk {ts us : List Token} (hts : L ts) (hus : M us) : Then L M (ts ++ us)

theorem exists_one (k : Kind) : ∃ ts, One k ts := ⟨[⟨k, "", default⟩], .mk rfl⟩

/-- A sequence can be completed if both parts can. -/
theorem exists_then {L M : List Token → Prop} (hL : ∃ ts, L ts) (hM : ∃ us, M us) :
    ∃ ts, Then L M ts := by
  obtain ⟨ts, hts⟩ := hL
  obtain ⟨us, hus⟩ := hM
  exact ⟨ts ++ us, .mk hts hus⟩

end Syntax

/-! ## Outcomes that do not depend on what follows

Acceptance shows one token beyond those that are read, since this is what the action has looked at.
Where two actions follow each other, the token that ended the first is the first of the second. -/

/-- The diagnostic is about the token: it is at the place of the token and names its text. -/
inductive Diagnostic.Blames (t : Token) : Diagnostic → Prop
  | unexpected : Blames t (.located (.unexpectedToken t.value) t.start)
  | unexpectedDetailed (message : String) :
      Blames t (.located (.unexpectedTokenDetailed t.value message) t.start)
  | malformedNumber : Blames t (.located (.malformedNumber t.value) t.start)

namespace Parse

open Syntax

variable {α β γ : Type}

/-- Before a token `t`, the action reads the tokens `ts` and gives `a`, whatever follows. -/
def Accepts (m : Parse α) (ts : List Token) (t : Token) (a : α) : Prop :=
  ∀ ⦃c : Cursor⦄ ⦃vs : List Token⦄, c.ahead = ts ++ t :: vs →
    ∃ d, m c = .ok a d ∧ d.ahead = t :: vs

/-- At a token `t` after the tokens `ts`, the action stops with the diagnostic, whatever follows. -/
def Rejects (m : Parse α) (ts : List Token) (t : Token) (x : Diagnostic) : Prop :=
  ∀ ⦃c : Cursor⦄ ⦃vs : List Token⦄, c.ahead = ts ++ t :: vs → ∃ d, m c = .error (.error x) d

theorem bind_of_error {m : Parse α} {c d : Cursor} {s : Stop} (h : m c = .error s d)
    (f : α → Parse β) : (m >>= f) c = .error s d := by
  simp [bind, EStateM.bind, h]

/-- The tokens before `t'` start with the first of them, whatever follows `t'`. -/
theorem exists_cons_of_append {t t' : Token} {us vs vs' : List Token}
    (h : t :: vs = us ++ t' :: vs') (ws : List Token) : ∃ ws', us ++ t' :: ws = t :: ws' := by
  cases us with
  | nil =>
    obtain ⟨rfl, -⟩ := List.cons.inj h
    exact ⟨ws, rfl⟩
  | cons u us =>
    obtain ⟨rfl, -⟩ := List.cons.inj h
    exact ⟨us ++ t' :: ws, rfl⟩

section Sequence

variable {m : Parse α} {f : α → Parse β} {ts us vs vs' : List Token} {t t' : Token} {a : α}

/-- Two actions that accept, one after the other. -/
theorem Accepts.bind {b : β} (hm : m.Accepts ts t a) (hf : (f a).Accepts us t' b)
    (h : t :: vs = us ++ t' :: vs') : (m >>= f).Accepts (ts ++ us) t' b := by
  intro c ws hc
  obtain ⟨ws', hws'⟩ := exists_cons_of_append h ws
  rw [List.append_assoc, hws'] at hc
  obtain ⟨d, hd, hahead⟩ := hm hc
  obtain ⟨e, he, hahead'⟩ := hf (hahead.trans hws'.symm)
  exact ⟨e, by rw [bind_of_ok hd, he], hahead'⟩

/-- An action that accepts and then one that rejects. -/
theorem Accepts.bind_rejects {x : Diagnostic} (hm : m.Accepts ts t a)
    (hf : (f a).Rejects us t' x) (h : t :: vs = us ++ t' :: vs') :
    (m >>= f).Rejects (ts ++ us) t' x := by
  intro c ws hc
  obtain ⟨ws', hws'⟩ := exists_cons_of_append h ws
  rw [List.append_assoc, hws'] at hc
  obtain ⟨d, hd, hahead⟩ := hm hc
  obtain ⟨e, he⟩ := hf (hahead.trans hws'.symm)
  exact ⟨e, by rw [bind_of_ok hd, he]⟩

theorem Rejects.bind {x : Diagnostic} (hm : m.Rejects ts t x) : (m >>= f).Rejects ts t x := by
  intro c ws hc
  obtain ⟨d, hd⟩ := hm hc
  exact ⟨d, bind_of_error hd f⟩

/-- What is accepted can be seen in a run. -/
theorem Accepts.exists_run {ws : List Token} (h : m.Accepts ts t a) (hends : Ends ws)
    (hws : ws = ts ++ t :: vs) :
    ∃ c d : Cursor, c.ahead = ws ∧ c.Closed ∧ m c = .ok a d ∧ d.ahead = t :: vs := by
  have hne : ws ≠ [] := by
    rw [hws]
    exact List.append_ne_nil_of_right_ne_nil _ (List.cons_ne_nil _ _)
  obtain ⟨u, us, hus⟩ := List.exists_cons_of_ne_nil hne
  have hc : Cursor.ahead ⟨u, us, 0⟩ = ws := hus.symm
  obtain ⟨d, hd, hahead⟩ := h (hc.trans hws)
  exact ⟨_, d, hc, Ends.closed (hc.symm ▸ hends), hd, hahead⟩

end Sequence

/-! ## Decisions

The rules for putting decisions together.  The budgets go along: a sequence leaves to its second
action what the first one did not use. -/

/-- On the tokens `ws`, the actions of a family come to the same decision: they accept tokens of the
language `L`, or they reject the first token after which no token of `L` can come about.  The action
`F i` has a budget for fewer than `fuel i` tokens. -/
inductive Decides {ι : Type} (fuel : ι → Nat) (F : ι → Parse α) (L : List Token → Prop)
    (ws : List Token) : Prop
  | accepts {ts vs : List Token} {t : Token} {a : α} (hws : ws = ts ++ t :: vs) (hL : L ts)
      (h : ∀ i, ts.length < fuel i → (F i).Accepts ts t a)
  | rejects {ts vs : List Token} {t : Token} {x : Diagnostic} (hws : ws = ts ++ t :: vs)
      (hL : ∃ us, L (ts ++ us)) (hx : x.Blames t)
      (h : ∀ i, ts.length < fuel i → (F i).Rejects ts t x)

namespace Decides

variable {ι κ : Type} {fuel fuel' : ι → Nat} {F : ι → Parse α} {G : ι → α → Parse β}
  {L M K : List Token → Prop} {ws vs : List Token} {t : Token}

/-- A decision about a language is one about a larger one. -/
theorem imp (h : Decides fuel F L ws) (hLM : ∀ {ts}, L ts → M ts) : Decides fuel F M ws := by
  cases h with
  | accepts hws hL h => exact .accepts hws (hLM hL) h
  | rejects hws hL hx h =>
    obtain ⟨us, hus⟩ := hL
    exact .rejects hws ⟨us, hLM hus⟩ hx h

/-- A family that is a part of another one. -/
theorem comap {fuel' : κ → Nat} {F' : κ → Parse α} (h : Decides fuel' F' L ws) (f : ι → κ)
    (hf : ∀ i, fuel i ≤ fuel' (f i)) : Decides fuel (fun i ↦ F' (f i)) L ws := by
  cases h with
  | accepts hws hL h => exact .accepts hws hL fun i hi ↦ h (f i) (Nat.lt_of_lt_of_le hi (hf i))
  | rejects hws hL hx h =>
    exact .rejects hws hL hx fun i hi ↦ h (f i) (Nat.lt_of_lt_of_le hi (hf i))

theorem mono (h : Decides fuel' F L ws) (hle : ∀ i, fuel i ≤ fuel' i) : Decides fuel F L ws :=
  h.comap id hle

/-- The decision of a family is that of another one whose actions do the same at the first token. -/
theorem of_eq {fuel' : κ → Nat} {F' : κ → Parse α} (hF : Decides fuel' F' L (t :: vs))
    (h : ∀ i, 0 < fuel i → ∃ j, fuel i ≤ fuel' j ∧ ∀ c : Cursor, c.current = t → F i c = F' j c) :
    Decides fuel F L (t :: vs) := by
  cases hF with
  | @accepts _ _ _ a hws hL hF =>
    refine .accepts (a := a) hws hL fun i hi c us hc ↦ ?_
    obtain ⟨j, hj, heq⟩ := h i (Nat.zero_lt_of_lt hi)
    obtain ⟨ws', hws'⟩ := exists_cons_of_append hws us
    rw [heq c (Cursor.current_of_ahead (hc.trans hws'))]
    exact hF j (Nat.lt_of_lt_of_le hi hj) hc
  | rejects hws hL hx hF =>
    refine .rejects hws hL hx fun i hi c us hc ↦ ?_
    obtain ⟨j, hj, heq⟩ := h i (Nat.zero_lt_of_lt hi)
    obtain ⟨ws', hws'⟩ := exists_cons_of_append hws us
    rw [heq c (Cursor.current_of_ahead (hc.trans hws'))]
    exact hF j (Nat.lt_of_lt_of_le hi hj) hc

theorem congr {F' : ι → Parse α} (hF : Decides fuel F' L (t :: vs))
    (h : ∀ i (c : Cursor), c.current = t → F i c = F' i c) : Decides fuel F L (t :: vs) :=
  hF.of_eq fun i _ ↦ ⟨i, Nat.le_refl _, h i⟩

/-! ### Budgets and looking ahead

An action with a budget stops at once if there is nothing left of it.  The next two lemmas take the
budget apart, so that no other lemma has a case for zero.  Looking at a token is no move, and costs
nothing. -/

/-- An action that needs a budget at all, by what it does with one more than it passes on. -/
theorem of_succ {F : Nat → Parse α} (h : Decides (· + 1) (fun n ↦ F (n + 1)) L (t :: vs)) :
    Decides id F L (t :: vs) := by
  refine h.of_eq fun n hn ↦ ?_
  obtain ⟨n, rfl⟩ := Nat.exists_eq_add_one.2 hn
  exact ⟨n, Nat.le_refl _, fun _ _ ↦ rfl⟩

/-- The same for an action that has two budgets, of which it counts down the second one. -/
theorem of_succ_snd {F : Nat → Nat → Parse α}
    (h : Decides (fun i : Nat × Nat ↦ min i.1 i.2 + 1) (fun i ↦ F i.1 (i.2 + 1)) L (t :: vs)) :
    Decides (fun i : Nat × Nat ↦ min (i.1 + 1) i.2) (fun i ↦ F i.1 i.2) L (t :: vs) := by
  refine h.of_eq ?_
  rintro ⟨n, m⟩ hpos
  obtain ⟨m, rfl⟩ := Nat.exists_eq_add_one.2 (Nat.lt_min.1 hpos).2
  exact ⟨(n, m), Nat.le_of_eq (Nat.succ_min_succ n m), fun _ _ ↦ rfl⟩

/-- Looking at the first token before going on. -/
theorem peek {m : Parse γ} {a : γ} {G : ι → γ → Parse β}
    (hm : ∀ c : Cursor, c.current = t → m c = .ok a c)
    (h : Decides fuel (fun i ↦ G i a) L (t :: vs)) :
    Decides fuel (fun i ↦ m >>= G i) L (t :: vs) :=
  h.congr fun _ c hc ↦ bind_of_ok (hm c hc) _

theorem peek_kind {G : ι → Kind → Parse β} (h : Decides fuel (fun i ↦ G i t.kind) L (t :: vs)) :
    Decides fuel (fun i ↦ kind >>= G i) L (t :: vs) :=
  h.peek fun c hc ↦ hc ▸ kind_apply c

theorem peek_current {G : ι → Token → Parse β} (h : Decides fuel (fun i ↦ G i t) L (t :: vs)) :
    Decides fuel (fun i ↦ current >>= G i) L (t :: vs) :=
  h.peek fun c hc ↦ hc ▸ current_apply c

theorem peek_position {G : ι → Position → Parse β}
    (h : Decides fuel (fun i ↦ G i t.start) L (t :: vs)) :
    Decides fuel (fun i ↦ position >>= G i) L (t :: vs) :=
  h.peek fun c hc ↦ hc ▸ position_apply c

/-! ### Sequences

The rule for sequences in three strengths.  In `after` the first action is known to accept; in
`bind` it decides, and the language of the second may depend on what was read; in `seq` it does not.
The grammar uses the last one nearly everywhere.  The loop for operators needs `bind`, since there
the tokens of the left operand are part of the language. -/

/-- A sequence of two actions of which the first one accepts: the second one decides about the rest,
for which as much of the budget is left as was not needed. -/
theorem after {ts : List Token} {a : α} (h : ∀ i, ts.length < fuel i → (F i).Accepts ts t a)
    (hfuel : ∀ i, fuel i ≤ fuel' i + ts.length)
    (hG : Decides fuel' (fun i ↦ G i a) (fun us ↦ K (ts ++ us)) (t :: vs)) :
    Decides fuel (fun i ↦ F i >>= G i) K (ts ++ t :: vs) := by
  -- a budget for all tokens leaves enough for those behind `ts`
  have hfirst : ∀ {us : List Token} i, (ts ++ us).length < fuel i →
      ts.length < fuel i ∧ us.length < fuel' i := by
    intro us i hi
    have hle := hfuel i
    rw [List.length_append] at hi
    omega
  cases hG with
  | @accepts _ _ _ b hws hK h' =>
    have heq := (congrArg (ts ++ ·) hws).trans (List.append_assoc _ _ _).symm
    refine .accepts (a := b) heq hK fun i hi ↦ ?_
    obtain ⟨hi₁, hi₂⟩ := hfirst i hi
    exact (h i hi₁).bind (h' i hi₂) hws
  | rejects hws hK hx h' =>
    obtain ⟨us, hus⟩ := hK
    have heq := (congrArg (ts ++ ·) hws).trans (List.append_assoc _ _ _).symm
    refine .rejects heq ⟨us, by rwa [List.append_assoc]⟩ hx fun i hi ↦ ?_
    obtain ⟨hi₁, hi₂⟩ := hfirst i hi
    exact (h i hi₁).bind_rejects (h' i hi₂) hws

/-- A sequence of two actions.  What the first one reads can always be completed. -/
theorem bind (h : Decides fuel F L ws) (fuel' : ι → Nat) (hK : ∀ {ts}, L ts → ∃ us, K (ts ++ us))
    (hG : ∀ {ts vs : List Token} {t : Token} {a : α}, ws = ts ++ t :: vs → L ts →
      (∀ i, ts.length < fuel i → (F i).Accepts ts t a) →
      (∀ i, fuel i ≤ fuel' i + ts.length) ∧
        Decides fuel' (fun i ↦ G i a) (fun us ↦ K (ts ++ us)) (t :: vs)) :
    Decides fuel (fun i ↦ F i >>= G i) K ws := by
  cases h with
  | rejects hws hL hx h =>
    obtain ⟨us, hus⟩ := hL
    obtain ⟨us', hus'⟩ := hK hus
    exact .rejects hws ⟨us ++ us', by rwa [← List.append_assoc]⟩ hx fun i hi ↦ (h i hi).bind
  | accepts hws hL h =>
    obtain ⟨hfuel, hG⟩ := hG hws hL h
    exact hws ▸ after h hfuel hG

/-- A sequence of two actions, where the language of the second one is the same after all that the
first one reads. -/
theorem seq (h : Decides fuel F L ws) (hends : Ends ws) (hM : ∃ us, M us)
    (hfuel : ∀ {ts}, L ts → ∀ i, fuel i ≤ fuel' i + ts.length)
    (hG : ∀ {ts vs : List Token} {t : Token} {a : α}, L ts → Ends (t :: vs) →
      ws.length = ts.length + (vs.length + 1) → Decides fuel' (fun i ↦ G i a) M (t :: vs)) :
    Decides fuel (fun i ↦ F i >>= G i) (Then L M) ws := by
  obtain ⟨us, hus⟩ := hM
  refine h.bind fuel' (fun hts ↦ ⟨us, .mk hts hus⟩) fun hws hts _ ↦ ⟨hfuel hts, ?_⟩
  have hlen := congrArg List.length hws
  rw [List.length_append, List.length_cons] at hlen
  exact (hG hts (hends.drop hws) hlen).imp fun hus ↦ .mk hts hus

/-- An action that gives something at once. -/
theorem pure (a : α) : Decides fuel (fun _ ↦ (Pure.pure a : Parse α)) (· = []) (t :: vs) :=
  .accepts (show t :: vs = [] ++ t :: vs from rfl) rfl fun _ _ c _ hc ↦ ⟨c, rfl, hc⟩

/-- The last action of a sequence: what is given is made of what was read. -/
theorem map (h : Decides fuel F L ws) (f : α → β) :
    Decides fuel (fun i ↦ do return f (← F i)) L ws := by
  refine h.bind fuel (fun hts ↦ ⟨[], by rwa [List.append_nil]⟩)
    fun _ hts _ ↦ ⟨fun _ ↦ Nat.le_add_right _ _, ?_⟩
  exact (pure _).imp fun hus ↦ by rwa [hus, List.append_nil]

/-- An item that may be left out before a token of kind `k`. -/
theorem optional {R : List Token → γ → Prop} {missing : γ} {a : α} {k : Kind}
    (hends : Ends (t :: vs)) (hM : ∃ us, M us)
    (hF : t.kind ≠ k → Decides fuel F (Spells R) (t :: vs))
    (hG : ∀ {vs' : List Token} {t' : Token} {a : α}, Ends (t' :: vs') → vs'.length ≤ vs.length →
      Decides fuel (fun i ↦ G i a) M (t' :: vs')) :
    Decides fuel (fun i ↦ do
      let x ← if (← kind) = k then Pure.pure a else F i
      G i x) (Then (Spells (Optional R missing)) M) (t :: vs) := by
  refine peek_kind ?_
  by_cases hk : t.kind = k
  · simp only [if_pos hk, pure_bind]
    exact (hG hends (Nat.le_refl _)).imp fun {us} hus ↦
      show Then _ _ ([] ++ us) from .mk ⟨missing, .absent⟩ hus
  · simp only [if_neg hk]
    refine ((hF hk).seq hends hM (fun _ _ ↦ Nat.le_add_right _ _) fun _ hends' hlen ↦
      hG hends' ?_).imp ?_
    · rw [List.length_cons] at hlen
      omega
    · rintro _ ⟨⟨x, hx⟩, hus⟩
      exact .mk ⟨x, .present hx⟩ hus

/-- An action that stops at the first token. -/
theorem fail {x : Diagnostic} (hL : ∃ us, L us) (hx : x.Blames t)
    (h : ∀ i c, c.current = t → ∃ d, F i c = .error (.error x) d) :
    Decides fuel F L (t :: vs) :=
  .rejects (show t :: vs = [] ++ t :: vs from rfl) hL hx fun i _ c _ hc ↦
    h i c (Cursor.current_of_ahead hc)

theorem unexpected (hL : ∃ us, L us) (message : String) :
    Decides fuel (fun _ ↦ (Parse.unexpected message : Parse α)) L (t :: vs) := by
  refine fail hL (.unexpectedDetailed message) ?_
  rintro i c rfl
  exact ⟨c, rfl⟩

/-! ## Tokens

Single tokens, which are where an action stops if it does. -/

/-- An action that moves past a token of one kind and stops at any other. -/
theorem token {k : Kind} {m : Parse Token} (hk : k ≠ .endOfText) (h : Ends (t :: vs))
    (hok : ∀ c : Cursor, c.kind = k → m c = .ok c.current c.next)
    (herror : t.kind ≠ k → ∃ x, x.Blames t ∧ ∀ c : Cursor, c.current = t →
      m c = .error (.error x) c) :
    Decides fuel (fun _ ↦ m) (One k) (t :: vs) := by
  by_cases ht : t.kind = k
  · obtain ⟨u, us, rfl⟩ := h.exists_cons (ht ▸ hk)
    have hws : t :: u :: us = [t] ++ u :: us := rfl
    refine .accepts (a := t) hws (.mk ht) fun _ _ c vs hc ↦ ?_
    exact ⟨c.next, by rw [hok c ((Cursor.kind_of_ahead hc).trans ht), Cursor.current_of_ahead hc],
      Cursor.ahead_next hc⟩
  · obtain ⟨x, hx, hm⟩ := herror ht
    exact fail (exists_one k) hx fun _ c hc ↦ ⟨c, hm c hc⟩

theorem expect {k : Kind} (hk : k ≠ .endOfText) (h : Ends (t :: vs)) :
    Decides fuel (fun _ ↦ Parse.expect k) (One k) (t :: vs) := by
  refine token hk h (fun c hc ↦ expect_of_kind hc) fun ht ↦ ⟨_, .unexpected, ?_⟩
  rintro c rfl
  exact (expectOr_apply k none c).trans (if_neg ht)

theorem expectDetailed {k : Kind} (hk : k ≠ .endOfText) (h : Ends (t :: vs)) (message : String) :
    Decides fuel (fun _ ↦ Parse.expectDetailed k message) (One k) (t :: vs) := by
  refine token hk h (fun c hc ↦ expectDetailed_of_kind hc message) fun ht ↦
    ⟨_, .unexpectedDetailed message, ?_⟩
  rintro c rfl
  exact (expectOr_apply k (some (c.unexpected message)) c).trans (if_neg ht)

/-- A token of one kind and what comes after it. -/
theorem one_seq {k : Kind} (h : Decides fuel F (One k) (t :: vs)) (hends : Ends (t :: vs))
    (hM : ∃ us, M us) (hfuel : ∀ i, fuel i ≤ fuel' i + 1)
    (hG : ∀ {u : Token} {us : List Token} {a : α}, vs = u :: us → Ends (u :: us) →
      Decides fuel' (fun i ↦ G i a) M (u :: us)) :
    Decides fuel (fun i ↦ F i >>= G i) (Then (One k) M) (t :: vs) := by
  obtain ⟨us, hus⟩ := hM
  refine h.bind fuel' (fun hts ↦ ⟨us, .mk hts hus⟩) fun hws hts _ ↦ ?_
  obtain ⟨ht⟩ := hts
  exact ⟨hfuel, (hG (List.cons.inj hws).2 (hends.drop hws)).imp (.mk (.mk ht))⟩

/-- Moving past a token that was looked at already, and going on. -/
theorem advance {G : ι → Token → Parse β} (ht : t.kind ≠ .endOfText) (hends : Ends (t :: vs))
    (hG : ∀ {u : Token} {us : List Token}, vs = u :: us → Ends (u :: us) →
      Decides fuel (fun i ↦ G i t) M (u :: us)) :
    Decides (fun i ↦ fuel i + 1) (fun i ↦ Parse.advance >>= G i) (Then (· = [t]) M) (t :: vs) := by
  obtain ⟨u, us, rfl⟩ := hends.exists_cons ht
  have hws : t :: u :: us = [t] ++ u :: us := rfl
  have hfirst : Parse.advance.Accepts [t] u t := fun c vs hc ↦
    ⟨c.next, by rw [advance_apply, Cursor.current_of_ahead hc], Cursor.ahead_next hc⟩
  rw [hws]
  exact after (fun _ _ ↦ hfirst) (fun _ ↦ Nat.le_refl _) ((hG rfl (hends.drop hws)).imp (.mk rfl))

/-! ## Repetition

Lists.  The induction is on the number of tokens ahead, because an item reads at least one token,
and each round needs one unit of the budget of the loop. -/

section Repetition

variable {loop : κ → Parse (List β)} {fuel' : κ → Nat} {f : α → β} {R : List Token → γ → Prop}
  {b : Nat}

/-- The budget that is left for more items after one of them. -/
theorem fuel_of_item (fuel : ι → Nat) (fuel' : κ → Nat) (hR : ∀ {ts a}, R ts a → ts ≠ [])
    {ts : List Token} (hts : Spells R ts) (i : ι × κ) :
    min (fuel i.1) (fuel' i.2 + 1) ≤ fuel' i.2 + ts.length := by
  obtain ⟨a, ha⟩ := hts
  have hpos := List.length_pos_iff.2 (hR ha)
  omega

/-- An action that reads items one after the other, up to a token at which it stops. -/
theorem many {P : Kind → Prop} [DecidablePred P]
    (hloop : ∀ i, 0 < fuel' i → ∃ j i', fuel' i ≤ fuel j ∧ fuel' i ≤ fuel' i' + 1 ∧
      ∀ c : Cursor, loop i c = if P c.kind then .ok [] c
        else (do return f (← F j) :: (← loop i')) c)
    (hR : ∀ {ts a}, R ts a → ts ≠ [])
    (hF : ∀ {t vs}, (t :: vs).length < b → Ends (t :: vs) → ¬ P t.kind →
      Decides fuel F (Spells R) (t :: vs)) :
    ∀ {t vs}, (t :: vs).length < b → Ends (t :: vs) →
      Decides fuel' loop (Spells (Many R)) (t :: vs) := by
  intro t vs hlen hends
  induction hn : vs.length using Nat.strongRecOn generalizing t vs with
  | ind n ih =>
    subst hn
    have hnil : Spells (Many R) [] := ⟨[], .nil⟩
    by_cases hP : P t.kind
    · refine ((pure []).imp fun hts ↦ hts ▸ hnil).of_eq fun i hi ↦ ⟨i, Nat.le_refl _, ?_⟩
      rintro c rfl
      obtain ⟨j, i', -, -, heq⟩ := hloop i hi
      rw [heq c]
      exact if_pos hP
    · have hitem := (hF hlen hends hP).comap Prod.fst fun i : ι × κ ↦
        Nat.min_le_left (fuel i.1) (fuel' i.2 + 1)
      have hread : Decides (fun i : ι × κ ↦ min (fuel i.1) (fuel' i.2 + 1))
          (fun i ↦ do return f (← F i.1) :: (← loop i.2))
          (Then (Spells R) (Spells (Many R))) (t :: vs) := by
        refine hitem.seq hends ⟨[], hnil⟩ (fuel_of_item fuel fuel' hR)
          fun {_ vs' _ _} hts hends' h ↦ ?_
        -- an item has a token, so fewer are ahead in the next round
        have hlt : vs'.length < vs.length := by
          have hpos := List.length_pos_iff.2 (hR hts.choose_spec)
          rw [List.length_cons] at h
          omega
        have hrest := ih _ hlt (Nat.lt_trans (Nat.succ_lt_succ hlt) hlen) hends' rfl
        exact (hrest.comap Prod.snd fun _ ↦ Nat.le_refl _).map _
      refine (hread.imp ?_).of_eq fun i hi ↦ ?_
      · rintro _ ⟨⟨a, ha⟩, as, has⟩
        exact ⟨a :: as, .cons ha has⟩
      · obtain ⟨j, i', hj, hi', heq⟩ := hloop i hi
        refine ⟨(j, i'), Nat.le_min.2 ⟨hj, hi'⟩, ?_⟩
        rintro c rfl
        rw [heq c]
        exact if_neg hP

/-- An action that reads items with commas between them, one at least. -/
theorem commas
    (hloop : ∀ i, 0 < fuel' i → ∃ j i', fuel' i ≤ fuel j ∧ fuel' i ≤ fuel' i' + 1 ∧
      loop i = do
        let x ← F j
        if (← kind) = .comma then
          let _ ← Parse.advance
          return f x :: (← loop i')
        else return [f x])
    (hR : ∀ {ts a}, R ts a → ts ≠ [])
    (hF : ∀ {t vs}, (t :: vs).length < b → Ends (t :: vs) → Decides fuel F (Spells R) (t :: vs)) :
    ∀ {t vs}, (t :: vs).length < b → Ends (t :: vs) →
      Decides fuel' loop (Spells (Commas R)) (t :: vs) := by
  intro t vs hlen hends
  induction hn : vs.length using Nat.strongRecOn generalizing t vs with
  | ind n ih =>
    subst hn
    have hitem := (hF hlen hends).comap Prod.fst fun i : ι × κ ↦
      Nat.min_le_left (fuel i.1) (fuel' i.2 + 1)
    have hread : Decides (fun i : ι × κ ↦ min (fuel i.1) (fuel' i.2 + 1))
        (fun i ↦ do
          let x ← F i.1
          if (← kind) = .comma then
            let _ ← Parse.advance
            return f x :: (← loop i.2)
          else return [f x])
        (Then (Spells R) fun us ↦ us = [] ∨ Then (One .comma) (Spells (Commas R)) us)
        (t :: vs) := by
      refine hitem.seq hends ⟨[], .inl rfl⟩ (fuel_of_item fuel fuel' hR)
        fun {_ vs' t' x} hts hends' h ↦ ?_
      have hlt : vs'.length < vs.length := by
        have hpos := List.length_pos_iff.2 (hR hts.choose_spec)
        rw [List.length_cons] at h
        omega
      by_cases hcomma : t'.kind = .comma
      · have hne : t'.kind ≠ .endOfText := fun heof ↦ by rw [hcomma] at heof; cases heof
        have hmore : Decides (fun i : ι × κ ↦ fuel' i.2 + 1)
            (fun i ↦ do
              let _ ← Parse.advance
              return f x :: (← loop i.2))
            (Then (· = [t']) (Spells (Commas R))) (t' :: vs') := by
          refine advance hne hends' fun {_ us} hvs' hends'' ↦ ?_
          have hlt' : us.length < vs.length := by
            rw [hvs', List.length_cons] at hlt
            omega
          have hrest := ih _ hlt' (Nat.lt_trans (Nat.succ_lt_succ hlt') hlen) hends'' rfl
          exact (hrest.comap Prod.snd fun _ ↦ Nat.le_refl _).map _
        refine peek_kind ?_
        simp only [if_pos hcomma]
        refine (hmore.imp ?_).mono fun _ ↦ Nat.le_succ _
        rintro _ ⟨rfl, hus⟩
        exact .inr (.mk (.mk hcomma) hus)
      · refine peek_kind ?_
        simp only [if_neg hcomma]
        exact (pure [f x]).imp .inl
    refine (hread.imp ?_).of_eq fun i hi ↦ ?_
    · rintro _ ⟨⟨a, ha⟩, rfl | ⟨⟨hcomma⟩, as, has⟩⟩
      · exact ⟨[a], List.append_nil _ ▸ .one ha⟩
      · exact ⟨a :: as, .more ha hcomma has⟩
    · obtain ⟨j, i', hj, hi', heq⟩ := hloop i hi
      exact ⟨(j, i'), Nat.le_min.2 ⟨hj, hi'⟩, fun c _ ↦ by rw [heq]⟩

end Repetition

end Decides

end Parse

end Typewright
