import Mathlib.Data.Set.Card
import Typewright.Proofs.Trace

/-!
# Open scopes and their history

A check keeps the open scopes as a stack.  This module says what is in the stack from the history of
the operations alone.  A scope is named by the operation that entered it.  It is `Open` as long as
more scopes are open than before that operation, and a name is `BoundIn` it by every operation that
bound the name while this was the innermost open scope.  Operations that fail are part of the
history too: an exit without an open scope closes none, and a name is bound in no scope then.

`Stacked` ties the stack to the history, one frame for each open scope.  Every operation keeps it
(`Tracks.after`), and the main result `Check.scopes_of_history` reads off what is open, what a name
stands for and which operations fail.

## Why a history

A specification by another stack would repeat the code.  Here the words of a reader are used
instead: a scope was entered and has not been exited, a name was bound in it and has not been bound
again.  Nothing in them is computed by going through the operations with a stack.  The only thing
that is counted is how many scopes are open at a point, and whether a scope has been exited since is
a question about these numbers: at some point no more scopes were open than before it was entered.

The number of an operation is the identity of the scope that it enters.  Two scopes with the same
contents at the same depth are two scopes, and what was bound in the first of them is not visible in
the second.  That operations fail and go on is allowed on purpose.  A check never does it, so this
is about the actions themselves and not about their use.
-/

set_option autoImplicit false

namespace Typewright

/-! ## Operations

The three actions of a check that change the open scopes.  Each of them either does its work or
fails and leaves the scopes as they are; `ScopeOp.frames` has both in one, since an exit from no
scopes and a binding in none leave no scopes. -/

/-- An operation on the open scopes. -/
inductive ScopeOp where
  | enter
  | exit
  | bind (name : String) (b : Binding)
deriving DecidableEq, Repr

namespace ScopeOp

/-- The operation as an action of a check. -/
def act : ScopeOp → Check Unit
  | enter => Check.enterScope
  | exit => Check.exitScope
  | bind x b => Check.bindName x b

/-- The fault of the operation where no scope is open. -/
def fault? : ScopeOp → Option Fault
  | enter => none
  | exit => some .scopeUnderflow
  | bind x _ => some (.noOpenScope x)

/-- How many scopes are open after the operation, if `n` were before. -/
def level (n : Nat) : ScopeOp → Nat
  | enter => n + 1
  | exit => n - 1
  | bind _ _ => n

/-- The frames after the operation. -/
def frames : ScopeOp → List Scope → List Scope
  | enter, fs => [] :: fs
  | exit, fs => fs.tail
  | bind x b, f :: fs => ((x, b) :: f) :: fs
  | bind _ _, [] => []

end ScopeOp

namespace Checker

/-- The state after an operation, whether it failed or not. -/
def after (c : Checker) (op : ScopeOp) : Checker :=
  match op.act c with
  | .ok _ d => d
  | .error _ d => d

/-- The state after operations in order. -/
def afterAll (c : Checker) (h : List ScopeOp) : Checker := h.foldl after c

/-- What an operation does: it fails where it needs an open scope and there is none, and it leaves
the scopes as they are then. -/
theorem act_cases (c : Checker) (op : ScopeOp) :
    (∃ d, op.act c = .ok () d ∧ d.scopes.frames = op.frames c.scopes.frames ∧
      (op.fault? = none ∨ c.scopes.depth ≠ 0)) ∨
    (∃ f d, op.act c = .error f d ∧ d.scopes = c.scopes ∧ op.fault? = some f ∧
      c.scopes.frames = []) := by
  cases op with
  | enter => exact .inl ⟨_, Check.enterScope_apply c, rfl, .inl rfl⟩
  | exit =>
    have hact : Check.exitScope c =
        Check.setScopes c.scopes.exit (c.move c.site [.exitingScope c.scopes.depth]) := by
      simp [Check.exitScope, site]
    rw [ScopeOp.act, hact, Scopes.exit, Scopes.depth]
    cases c.scopes.frames with
    | nil => exact .inr ⟨_, _, rfl, rfl, rfl, rfl⟩
    | cons f fs => exact .inl ⟨_, rfl, rfl, .inr (Nat.succ_ne_zero _)⟩
  | bind x b =>
    have hact : Check.bindName x b c = Check.setScopes (c.scopes.bind x b) c := by
      simp [Check.bindName]
    rw [ScopeOp.act, hact, Scopes.bind, Scopes.depth]
    cases c.scopes.frames with
    | nil => exact .inr ⟨_, _, rfl, rfl, rfl, rfl⟩
    | cons f fs => exact .inl ⟨_, rfl, rfl, .inr (Nat.succ_ne_zero _)⟩

theorem frames_after (c : Checker) (op : ScopeOp) :
    (c.after op).scopes.frames = op.frames c.scopes.frames := by
  rcases c.act_cases op with ⟨d, hd, hframes, -⟩ | ⟨f, d, hd, hscopes, hfault, hnil⟩
  · rw [after, hd]
    exact hframes
  · rw [after, hd, hscopes, hnil]
    cases op with
    | enter => cases hfault
    | exit => rfl
    | bind x b => rfl

end Checker

/-! ## Scopes in the history

All definitions are about the list of operations only.  A prefix of the history is the history at an
earlier time, so "was then the innermost" is said of a prefix. -/

/-- The operations that were performed, in order. -/
abbrev History := List ScopeOp

namespace History

/-- How many scopes are open after the operations. -/
def level (h : History) : Nat := h.foldl ScopeOp.level 0

/-- The scope that operation `i` entered has not been exited: ever since, more scopes have been open
than before it. -/
def Open (h : History) (i : Nat) : Prop :=
  h[i]? = some .enter ∧ ∀ k, i < k → k ≤ h.length → level (h.take i) < level (h.take k)

/-- The scope that operation `i` entered is the innermost open one. -/
def Innermost (h : History) (i : Nat) : Prop := Open h i ∧ ∀ j, Open h j → j ≤ i

/-- Operation `j` bound the name, and the scope that operation `i` entered was then the innermost
open one. -/
def BoundIn (h : History) (i : Nat) (x : String) (j : Nat) (b : Binding) : Prop :=
  h[j]? = some (.bind x b) ∧ Innermost (h.take j) i

/-- The last operation to bind the name in the scope that operation `i` entered bound it to `b`. -/
def LastBound (h : History) (i : Nat) (x : String) (b : Binding) : Prop :=
  ∃ j, BoundIn h i x j b ∧ ∀ j' b', BoundIn h i x j' b' → j' ≤ j

variable {h : History} {op : ScopeOp} {i j : Nat} {x : String} {b : Binding}

theorem Open.lt (hi : Open h i) : i < h.length := (List.getElem?_eq_some_iff.1 hi.1).1

theorem BoundIn.lt (hj : BoundIn h i x j b) : j < h.length := (List.getElem?_eq_some_iff.1 hj.1).1

/-- Fewer scopes were open before an open scope was entered than are now. -/
theorem Open.level_lt (hi : Open h i) : level (h.take i) < level h := by
  have hlast := hi.2 h.length hi.lt (Nat.le_refl _)
  rwa [List.take_length] at hlast

/-- The last binding of a name in a scope is one. -/
theorem LastBound.unique {b' : Binding} (hb : LastBound h i x b) (hb' : LastBound h i x b') :
    b = b' := by
  obtain ⟨j, hj, hlast⟩ := hb
  obtain ⟨j', hj', hlast'⟩ := hb'
  obtain rfl : j = j' := Nat.le_antisymm (hlast' j b hj) (hlast j' b' hj')
  have hop := hj.1.symm.trans hj'.1
  rw [Option.some.injEq, ScopeOp.bind.injEq] at hop
  exact hop.2

/-! ### One more operation

How each of these changes with one more operation at the end.  A history grows at its end, so this
is what the induction over a history needs. -/

theorem level_concat (h : History) (op : ScopeOp) : level (h ++ [op]) = op.level (level h) := by
  simp [level, List.foldl_append]

/-- A scope is open after one more operation if it is the one that is entered, or if it was open and
the operation does not go down to where it was entered. -/
theorem open_concat :
    Open (h ++ [op]) i ↔
      (i = h.length ∧ op = .enter) ∨ (Open h i ∧ level (h.take i) < level (h ++ [op])) := by
  have hall : (h ++ [op]).take (h.length + 1) = h ++ [op] := List.take_of_length_le (by simp)
  constructor
  · rintro ⟨hi, hk⟩
    rw [List.length_append, List.length_singleton] at hk
    -- the scope was entered before, or it is the one that `op` enters
    rcases Nat.lt_or_ge i h.length with hlt | hge
    · have htake : (h ++ [op]).take i = h.take i :=
        List.take_append_of_le_length (Nat.le_of_lt hlt)
      rw [List.getElem?_append_left hlt] at hi
      refine .inr ⟨⟨hi, fun k hik hkl ↦ ?_⟩, ?_⟩
      · have hlevel := hk k hik (Nat.le_succ_of_le hkl)
        rwa [htake, List.take_append_of_le_length hkl] at hlevel
      · have hlevel := hk (h.length + 1) (Nat.lt_succ_of_lt hlt) (Nat.le_refl _)
        rwa [htake, hall] at hlevel
    · rw [List.getElem?_append_right hge, List.getElem?_singleton] at hi
      split at hi
      · exact .inl ⟨by omega, Option.some.inj hi⟩
      · cases hi
  · rintro (⟨rfl, rfl⟩ | ⟨hopen, hlevel⟩)
    · refine ⟨List.getElem?_concat_length, fun k hik hkl ↦ ?_⟩
      rw [List.length_append, List.length_singleton] at hkl
      obtain rfl : k = h.length + 1 := by omega
      rw [hall, List.take_left, level_concat]
      exact Nat.lt_succ_self _
    · have hlt := hopen.lt
      have htake : (h ++ [op]).take i = h.take i :=
        List.take_append_of_le_length (Nat.le_of_lt hlt)
      refine ⟨by rw [List.getElem?_append_left hlt, hopen.1], fun k hik hkl ↦ ?_⟩
      rw [List.length_append, List.length_singleton] at hkl
      rw [htake]
      rcases Nat.le_succ_iff.1 hkl with hkl | rfl
      · rw [List.take_append_of_le_length hkl]
        exact hopen.2 k hik hkl
      · rwa [hall]

/-- One more operation adds a binding in the innermost scope, or none. -/
theorem boundIn_concat :
    BoundIn (h ++ [op]) i x j b ↔
      BoundIn h i x j b ∨ (j = h.length ∧ op = .bind x b ∧ Innermost h i) := by
  constructor
  · rintro ⟨hj, hi⟩
    -- the name was bound before, or it is what `op` binds
    rcases Nat.lt_or_ge j h.length with hlt | hge
    · rw [List.getElem?_append_left hlt] at hj
      rw [List.take_append_of_le_length (Nat.le_of_lt hlt)] at hi
      exact .inl ⟨hj, hi⟩
    · rw [List.getElem?_append_right hge, List.getElem?_singleton] at hj
      split at hj
      · obtain rfl : j = h.length := by omega
        rw [List.take_left] at hi
        exact .inr ⟨rfl, Option.some.inj hj, hi⟩
      · cases hj
  · rintro (hbound | ⟨rfl, rfl, hi⟩)
    · have hlt := hbound.lt
      refine ⟨by rw [List.getElem?_append_left hlt, hbound.1], ?_⟩
      rw [List.take_append_of_le_length (Nat.le_of_lt hlt)]
      exact hbound.2
    · refine ⟨List.getElem?_concat_length, ?_⟩
      rwa [List.take_left]

/-! ## The stack and the history

The invariant.  `is` are the operations that entered the open scopes, innermost first.  Their order
is that of the frames, and `hlevel` says that a scope has as many scopes below it as there were when
it was entered, which is what tells the scope that the next exit closes. -/

/-- The frame holds what was bound in the scope that operation `i` entered. -/
structure Holds (h : History) (i : Nat) (f : Scope) : Prop where
  lastBound : ∀ {x : String} {b : Binding}, f.lookup x = some b → LastBound h i x b
  unbound : ∀ {x : String}, f.lookup x = none → ∀ j b, ¬ BoundIn h i x j b

/-- The frames are those of the scopes that the operations `is` entered, innermost first. -/
inductive Stacked (h : History) : List Nat → List Scope → Prop
  | nil : Stacked h [] []
  | cons {i : Nat} {is : List Nat} {f : Scope} {fs : List Scope}
      (hlevel : level (h.take i) = is.length) (hbelow : ∀ j ∈ is, j < i) (hf : Holds h i f)
      (hs : Stacked h is fs) : Stacked h (i :: is) (f :: fs)

/-- The frames are those of the open scopes. -/
structure Tracks (h : History) (is : List Nat) (fs : List Scope) : Prop where
  open_iff : ∀ {i : Nat}, Open h i ↔ i ∈ is
  stacked : Stacked h is fs
  level_eq : level h = is.length

section Stacked

variable {is : List Nat} {fs : List Scope}

theorem Stacked.length_eq (hs : Stacked h is fs) : fs.length = is.length := by
  induction hs with
  | nil => rfl
  | cons _ _ _ _ ih => rw [List.length_cons, List.length_cons, ih]

theorem Stacked.nodup (hs : Stacked h is fs) : is.Nodup := by
  induction hs with
  | nil => exact List.nodup_nil
  | cons _ hbelow _ _ ih => exact List.nodup_cons.2 ⟨fun hi ↦ Nat.lt_irrefl _ (hbelow _ hi), ih⟩

theorem Stacked.level_lt (hs : Stacked h is fs) : ∀ i ∈ is, level (h.take i) < is.length := by
  induction hs with
  | nil => exact List.forall_mem_nil _
  | cons hlevel _ _ _ ih =>
    refine List.forall_mem_cons.2 ⟨?_, fun j hj ↦ Nat.lt_succ_of_lt (ih j hj)⟩
    rw [hlevel]
    exact Nat.lt_succ_self _

/-! ### One more operation

Entering puts a frame on the stack, leaving takes the first one away, and binding changes the first
one only.  An operation that fails finds an empty stack and leaves it empty; in the history it opens
no scope and binds in none. -/

/-- A scope in which the operation binds nothing keeps its frame. -/
theorem Holds.concat {f : Scope} (hf : Holds h i f)
    (hop : ∀ x b, op = .bind x b → ¬ Innermost h i) : Holds (h ++ [op]) i f := by
  have hbound : ∀ {x j b}, BoundIn (h ++ [op]) i x j b ↔ BoundIn h i x j b := fun {x j b} ↦
    boundIn_concat.trans (or_iff_left fun ⟨_, hbind, hi⟩ ↦ hop x b hbind hi)
  refine ⟨fun {x b} hb ↦ ?_, fun {x} hx j b hj ↦ hf.unbound hx j b (hbound.1 hj)⟩
  obtain ⟨j, hj, hlast⟩ := hf.lastBound hb
  exact ⟨j, hbound.2 hj, fun j' b' hj' ↦ hlast j' b' (hbound.1 hj')⟩

/-- The innermost scope gets the new binding. -/
theorem Holds.bind {f : Scope} (hf : Holds h i f) (hi : Innermost h i) (x : String) (b : Binding) :
    Holds (h ++ [.bind x b]) i ((x, b) :: f) := by
  have hbound : ∀ {y j c}, BoundIn (h ++ [.bind x b]) i y j c ↔
      BoundIn h i y j c ∨ (j = h.length ∧ y = x ∧ c = b) := fun {y j c} ↦ by
    rw [boundIn_concat, ScopeOp.bind.injEq, eq_comm (a := x), eq_comm (a := b)]
    tauto
  refine ⟨fun {y c} hy ↦ ?_, fun {y} hy j c hj ↦ ?_⟩
  · rw [List.lookup_cons] at hy
    by_cases hyx : y = x
    · obtain rfl : b = c := by simpa [hyx] using hy
      refine ⟨h.length, hbound.2 (.inr ⟨rfl, hyx, rfl⟩), fun j' b' hj' ↦ ?_⟩
      rcases hbound.1 hj' with hj' | ⟨rfl, -⟩
      · exact Nat.le_of_lt hj'.lt
      · exact Nat.le_refl _
    · obtain ⟨j, hj, hlast⟩ := hf.lastBound (by simpa [beq_false_of_ne hyx] using hy)
      refine ⟨j, hbound.2 (.inl hj), fun j' b' hj' ↦ ?_⟩
      rcases hbound.1 hj' with hj' | ⟨-, hyx', -⟩
      · exact hlast j' b' hj'
      · exact absurd hyx' hyx
  · rw [List.lookup_cons] at hy
    by_cases hyx : y = x
    · simp [hyx] at hy
    · rcases hbound.1 hj with hj | ⟨-, hyx', -⟩
      · exact hf.unbound (by simpa [beq_false_of_ne hyx] using hy) j c hj
      · exact hyx hyx'

/-- An operation that binds nothing in the scopes of a stack leaves the stack what it is. -/
theorem Stacked.concat (hs : Stacked h is fs) : (∀ i ∈ is, i < h.length) →
    (∀ i ∈ is, ∀ x b, op = .bind x b → ¬ Innermost h i) → Stacked (h ++ [op]) is fs := by
  induction hs with
  | nil => exact fun _ _ ↦ .nil
  | cons hlevel hbelow hf _ ih =>
    intro hlt hop
    rw [List.forall_mem_cons] at hlt hop
    refine .cons ?_ hbelow (hf.concat hop.1) (ih hlt.2 hop.2)
    rw [List.take_append_of_le_length (Nat.le_of_lt hlt.1), hlevel]

namespace Tracks

theorem enter (ht : Tracks h is fs) : Tracks (h ++ [.enter]) (h.length :: is) ([] :: fs) where
  open_iff {i} := by
    rw [open_concat, List.mem_cons, ← ht.open_iff, level_concat]
    have hlevel : Open h i → level (h.take i) < ScopeOp.enter.level (level h) := fun hi ↦
      Nat.lt_succ_of_lt hi.level_lt
    tauto
  stacked := by
    have hlt : ∀ i ∈ is, i < h.length := fun i hi ↦ (ht.open_iff.2 hi).lt
    -- nothing can have been bound in a scope before the operation that entered it
    have hnew : Holds (h ++ [.enter]) h.length [] := by
      refine ⟨?_, fun _ j b hj ↦ ?_⟩
      · rintro x b ⟨⟩
      · rcases boundIn_concat.1 hj with hj | ⟨-, hop, -⟩
        · have hopen := hj.2.1.lt
          rw [List.length_take] at hopen
          omega
        · cases hop
    refine .cons ?_ hlt hnew (ht.stacked.concat hlt fun _ _ _ _ hop ↦ by cases hop)
    rw [List.take_left, ht.level_eq]
  level_eq := by rw [level_concat, ht.level_eq]; rfl

theorem exit (ht : Tracks h is fs) : Tracks (h ++ [.exit]) is.tail fs.tail := by
  have hlevel : level (h ++ [.exit]) = is.tail.length := by
    rw [level_concat, ht.level_eq, List.length_tail]
    rfl
  have hopen : ∀ {i}, Open (h ++ [.exit]) i ↔ i ∈ is ∧ level (h.take i) < is.tail.length :=
    fun {i} ↦ by
      rw [open_concat, ht.open_iff, hlevel]
      exact or_iff_right fun ⟨_, hop⟩ ↦ by cases hop
  have hlt : ∀ i ∈ is, i < h.length := fun i hi ↦ (ht.open_iff.2 hi).lt
  have hs := ht.stacked
  cases hs with
  | nil => exact ⟨fun {i} ↦ by simp [hopen], .nil, hlevel⟩
  | @cons i₀ is f fs hlevel₀ hbelow hf hs =>
    refine ⟨fun {i} ↦ ?_, ?_, hlevel⟩
    · rw [hopen, List.tail_cons, List.mem_cons]
      constructor
      -- the innermost scope is as high as the stack, and goes; those below it are lower, and stay
      · rintro ⟨rfl | hi, hlower⟩
        · exact absurd hlower (by rw [hlevel₀]; exact Nat.lt_irrefl _)
        · exact hi
      · intro hi
        exact ⟨.inr hi, hs.level_lt i hi⟩
    · exact hs.concat (List.forall_mem_cons.1 hlt).2 fun _ _ _ _ hop ↦ by cases hop

/-- The first scope of the stack is the innermost open one. -/
theorem innermost_iff {i₀ : Nat} (ht : Tracks h (i₀ :: is) fs) : Innermost h i ↔ i = i₀ := by
  have hs := ht.stacked
  cases hs with
  | cons _ hbelow _ _ =>
    simp only [Innermost, ht.open_iff, List.forall_mem_cons]
    constructor
    · rintro ⟨hi, hle, -⟩
      rcases List.mem_cons.1 hi with rfl | hi
      · rfl
      · exact absurd (hbelow i hi) (Nat.not_lt.2 hle)
    · rintro rfl
      exact ⟨List.mem_cons_self, Nat.le_refl _, fun j hj ↦ Nat.le_of_lt (hbelow j hj)⟩

theorem bind (ht : Tracks h is fs) (x : String) (b : Binding) :
    Tracks (h ++ [.bind x b]) is ((ScopeOp.bind x b).frames fs) := by
  have hlevel : level (h ++ [.bind x b]) = level h := level_concat h _
  have hopen : ∀ {i}, Open (h ++ [.bind x b]) i ↔ i ∈ is := fun {i} ↦ by
    rw [open_concat, hlevel, ← ht.open_iff]
    constructor
    · rintro (⟨-, hop⟩ | hi)
      · cases hop
      · exact hi.1
    · exact fun hi ↦ .inr ⟨hi, hi.level_lt⟩
  have hlt : ∀ i ∈ is, i < h.length := fun i hi ↦ (ht.open_iff.2 hi).lt
  refine ⟨hopen, ?_, hlevel.trans ht.level_eq⟩
  have hs := ht.stacked
  cases hs with
  | nil => exact .nil
  | @cons i₀ is f fs hlevel₀ hbelow hf hs =>
    rw [List.forall_mem_cons] at hlt
    refine .cons ?_ hbelow (hf.bind (ht.innermost_iff.2 rfl) x b) (hs.concat hlt.2 ?_)
    · rw [List.take_append_of_le_length (Nat.le_of_lt hlt.1), hlevel₀]
    -- the scopes below are not the innermost one, so nothing is bound in them
    · intro i hi _ _ _ hinner
      exact absurd (hbelow i hi) (by rw [ht.innermost_iff.1 hinner]; exact Nat.lt_irrefl _)

/-- Every operation keeps the frames those of the open scopes. -/
theorem after (ht : Tracks h is fs) (op : ScopeOp) :
    ∃ is', Tracks (h ++ [op]) is' (op.frames fs) := by
  cases op with
  | enter => exact ⟨_, ht.enter⟩
  | exit => exact ⟨_, ht.exit⟩
  | bind x b => exact ⟨_, ht.bind x b⟩

end Tracks

theorem tracks_nil : Tracks [] [] [] where
  open_iff {i} := by simp [Open]
  stacked := .nil
  level_eq := rfl

/-- After any operations, the frames are those of the scopes that are open. -/
theorem exists_tracks {c : Checker} (hc : c.scopes = .empty) (h : History) :
    ∃ is, Tracks h is (c.afterAll h).scopes.frames := by
  induction h using List.reverseRecOn with
  | nil => exact ⟨[], by rw [Checker.afterAll, List.foldl_nil, hc]; exact tracks_nil⟩
  | append_singleton h op ih =>
    obtain ⟨is, ht⟩ := ih
    rw [Checker.afterAll, List.foldl_append, List.foldl_cons, List.foldl_nil,
      Checker.frames_after]
    exact ht.after op

/-! ## What the stack says

A lookup goes through the frames from the innermost outwards, and later operations entered inner
scopes.  So the frame where it ends is the one with the greatest number among those in which the
name was bound. -/

theorem Stacked.findSome?_eq_none_iff (hs : Stacked h is fs) :
    fs.findSome? (·.lookup x) = none ↔ ∀ i ∈ is, ∀ j b, ¬ BoundIn h i x j b := by
  induction hs with
  | nil => simp
  | @cons i is f fs _ _ hf _ ih =>
    rw [List.findSome?_cons, List.forall_mem_cons]
    cases hx : f.lookup x with
    | none => exact ih.trans (and_iff_right (hf.unbound hx)).symm
    | some b =>
      obtain ⟨j, hj, -⟩ := hf.lastBound hx
      exact iff_of_false (by simp) fun hall ↦ hall.1 j b hj

/-- A lookup finds the last binding in the innermost scope that has one. -/
theorem Stacked.findSome?_eq_some_iff (hs : Stacked h is fs) :
    fs.findSome? (·.lookup x) = some b ↔
      ∃ i ∈ is, LastBound h i x b ∧ ∀ i' ∈ is, ∀ j b', BoundIn h i' x j b' → i' ≤ i := by
  induction hs with
  | nil => simp
  | @cons i₀ is f fs _ hbelow hf _ ih =>
    rw [List.findSome?_cons]
    cases hx : f.lookup x with
    -- the innermost scope does not have the name, so it takes no part on either side
    | none =>
      have hunbound := hf.unbound hx
      rw [ih]
      constructor
      · rintro ⟨i, hi, hlast, hinner⟩
        refine ⟨i, List.mem_cons_of_mem _ hi, hlast, List.forall_mem_cons.2 ⟨?_, hinner⟩⟩
        exact fun j b' hj ↦ absurd hj (hunbound j b')
      · rintro ⟨i, hi, hlast, hinner⟩
        rcases List.mem_cons.1 hi with rfl | hi
        · obtain ⟨j, hj, -⟩ := hlast
          exact absurd hj (hunbound j b)
        · exact ⟨i, hi, hlast, (List.forall_mem_cons.1 hinner).2⟩
    -- the innermost scope has the name, and all others are further out
    | some b₀ =>
      have hlast₀ := hf.lastBound hx
      rw [Option.some.injEq]
      constructor
      · rintro rfl
        refine ⟨i₀, List.mem_cons_self, hlast₀, List.forall_mem_cons.2 ⟨?_, ?_⟩⟩
        · exact fun _ _ _ ↦ Nat.le_refl _
        · exact fun i hi _ _ _ ↦ Nat.le_of_lt (hbelow i hi)
      · rintro ⟨i, hi, hlast, hinner⟩
        rcases List.mem_cons.1 hi with rfl | hi
        · exact hlast₀.unique hlast
        · obtain ⟨j, hj, -⟩ := hlast₀
          have hle := hinner i₀ List.mem_cons_self j b₀ hj
          exact absurd (hbelow i hi) (Nat.not_lt.2 hle)

/-- There is one frame for each open scope. -/
theorem Tracks.ncard_open (ht : Tracks h is fs) : {i | Open h i}.ncard = fs.length := by
  have hset : {i | Open h i} = is.toFinset := by
    ext i
    simp [ht.open_iff]
  rw [hset, Set.ncard_coe_finset, List.toFinset_card_of_nodup ht.stacked.nodup,
    ht.stacked.length_eq]

theorem Tracks.head?_eq_none_iff (ht : Tracks h is fs) :
    fs.head?.bind (·.lookup x) = none ↔ ∀ i, Innermost h i → ∀ j b, ¬ BoundIn h i x j b := by
  have hs := ht.stacked
  cases hs with
  | nil => exact iff_of_true rfl fun i hi ↦ by cases ht.open_iff.1 hi.1
  | @cons i₀ is f fs _ _ hf _ =>
    simp only [ht.innermost_iff, List.head?_cons, Option.bind_some]
    constructor
    · rintro hx i rfl
      exact hf.unbound hx
    · intro hunbound
      rcases hx : f.lookup x with _ | b
      · rfl
      · obtain ⟨j, hj, -⟩ := hf.lastBound hx
        exact absurd hj (hunbound i₀ rfl j b)

theorem Tracks.head?_eq_some_iff (ht : Tracks h is fs) :
    fs.head?.bind (·.lookup x) = some b ↔ ∃ i, Innermost h i ∧ LastBound h i x b := by
  have hs := ht.stacked
  cases hs with
  | nil => exact iff_of_false (by simp) fun ⟨i, hi, _⟩ ↦ by cases ht.open_iff.1 hi.1
  | @cons i₀ is f fs _ _ hf _ =>
    simp only [ht.innermost_iff, List.head?_cons, Option.bind_some, exists_eq_left]
    refine ⟨hf.lastBound, fun hlast ↦ ?_⟩
    rcases hx : f.lookup x with _ | b'
    · obtain ⟨j, hj, -⟩ := hlast
      exact absurd hj (hf.unbound hx j b)
    · rw [(hf.lastBound hx).unique hlast]

end Stacked

end History

open History

/-- **The open scopes are what the history says.**  After any operations on the scopes, failing ones
among them, from a state in which none is open:

* as many scopes are open as were entered and not exited;
* an exit and a binding fail exactly if that is none, and leave the scopes as they are;
* a name stands for what it was bound to last in the innermost open scope in which it was bound, and
  for nothing if it was bound in no open scope;
* the innermost scope alone is looked at in the same way. -/
theorem Check.scopes_of_history {c : Checker} (hc : c.scopes = .empty) (h : History) :
    (c.afterAll h).scopes.depth = {i | Open h i}.ncard ∧
    (∀ (op : ScopeOp) (f : Fault), (∃ d, op.act (c.afterAll h) = .error f d) ↔
      op.fault? = some f ∧ (c.afterAll h).scopes.depth = 0) ∧
    (∀ (op : ScopeOp) (f : Fault) (d : Checker), op.act (c.afterAll h) = .error f d →
      d.scopes = (c.afterAll h).scopes) ∧
    (∀ (x : String) (b : Binding), (c.afterAll h).scopes.lookup x = some b ↔
      ∃ i, Open h i ∧ LastBound h i x b ∧
        ∀ i', Open h i' → ∀ j b', BoundIn h i' x j b' → i' ≤ i) ∧
    (∀ x : String, (c.afterAll h).scopes.lookup x = none ↔
      ∀ i, Open h i → ∀ j b, ¬ BoundIn h i x j b) ∧
    (∀ (x : String) (b : Binding), (c.afterAll h).scopes.probe x = some b ↔
      ∃ i, Innermost h i ∧ LastBound h i x b) ∧
    ∀ x : String, (c.afterAll h).scopes.probe x = none ↔
      ∀ i, Innermost h i → ∀ j b, ¬ BoundIn h i x j b := by
  obtain ⟨is, ht⟩ := exists_tracks hc h
  refine ⟨ht.ncard_open.symm, fun op f ↦ ?_, fun op f d hd ↦ ?_, fun x b ↦ ?_, fun x ↦ ?_,
    fun x b ↦ ht.head?_eq_some_iff, fun x ↦ ht.head?_eq_none_iff⟩
  -- an operation fails where it needs a scope and there is none
  · rcases (c.afterAll h).act_cases op with ⟨d, hd, -, hcan⟩ | ⟨g, d, hd, -, hfault, hnil⟩
    · refine iff_of_false (by simp [hd]) ?_
      rintro ⟨hfault, hzero⟩
      rcases hcan with hnone | hdepth
      · rw [hnone] at hfault
        cases hfault
      · exact hdepth hzero
    · have hzero : (c.afterAll h).scopes.depth = 0 := by rw [Scopes.depth, hnil, List.length_nil]
      simp [hd, hfault, hzero]
  · rcases (c.afterAll h).act_cases op with ⟨d', hd', -⟩ | ⟨g, d', hd', hscopes, -⟩
    · rw [hd'] at hd
      cases hd
    · rw [hd'] at hd
      cases hd
      exact hscopes
  · simp only [ht.open_iff]
    exact ht.stacked.findSome?_eq_some_iff
  · simp only [ht.open_iff]
    exact ht.stacked.findSome?_eq_none_iff

/-- A name is bound before a scope is open, in a scope, and twice in a scope inside, which is then
exited. -/
def History.shadowing : History :=
  [.exit, .bind "x" .rejected, .enter, .bind "x" (.typed .int), .enter, .bind "x" (.typed .bool),
    .bind "x" (.typed .float), .exit, .enter]

theorem Check.scopes_of_history_shadowing :
    (Checker.start "main").scopes = .empty ∧
      {i | Open shadowing i}.ncard = 2 ∧
      (∃ i, Open shadowing i ∧ LastBound shadowing i "x" (.typed .int) ∧
        ∀ i', Open shadowing i' → ∀ j b, BoundIn shadowing i' "x" j b → i' ≤ i) ∧
      ∀ i, Innermost shadowing i → ∀ j b, ¬ BoundIn shadowing i "x" j b := by
  have hempty : (Checker.start "main").scopes = .empty := rfl
  obtain ⟨hdepth, -, -, hlookup, -, -, hprobe⟩ := Check.scopes_of_history hempty shadowing
  exact ⟨hempty, hdepth.symm.trans rfl, (hlookup "x" (.typed .int)).1 rfl, (hprobe "x").1 rfl⟩

end Typewright
