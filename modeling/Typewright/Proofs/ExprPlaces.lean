import Typewright.Proofs.SourcePlaces

/-!
# Where the nodes of an expression stand

Parentheses leave no trace in a tree, and an expression grows to the left of itself: what was read
first becomes the left operand of what comes next.  `Expr.Lies b ts e ps` says how the nodes of an
expression lie over the tokens that it was read from, rule by rule: which tokens belong to a node,
and from where it has its place.  `ps` lists all nodes, each with the number of its first token, if
`b` is the number of the first token of `ts`.

Reading an expression follows these rules (`Grammar.exprWithin_covers`).  What the rules say of
places comes to this, by induction on them (`Expr.Lies.settled`): every node has the place of the
first of its tokens that is not an opening parenthesis.  `Grammar.expr_places` puts both together.

## Two steps

The place of a node is not that of its first token.  In `(a) + b` the sum begins with the
parenthesis, and has the place of `a`.  What the parser does is to take the place of the left
operand, which was built before; that is a local rule, and it is what `Expr.Lies` records.  That
this always comes to the first token that is not a parenthesis is a consequence for whole
expressions.  So the parser is compared with the rules first, without a word about places, and where
nodes lie is then shown of the rules.

The numbers of the tokens are needed because a node is not determined by what it is.  The same name
at two places in an expression is two nodes, and "the first of its tokens" has to be said of each of
them.
-/

set_option autoImplicit false

namespace Typewright

open Syntax

/-! ## Nodes over tokens

The rules are those of the grammar without the powers of operators: how strongly an operator binds
decides which tree is read, not where its nodes stand.  A name before an assignment or a call may
itself be in parentheses. -/

mutual
/-- The tokens `ts`, the first of which is token number `b`, are those of the expression, and `ps`
are its nodes, each with the number of its own first token. -/
inductive Expr.Lies : Nat → List Token → Expr → List (Nat × Expr) → Prop
  | atom {b : Nat} {t : Token} {e : Expr} (h : Atom t e.bare) (hplace : e.position = t.start) :
      Expr.Lies b [t] e [(b, e)]
  | group {b : Nat} {o c : Token} {ts : List Token} {e : Expr} {ps : List (Nat × Expr)}
      (ho : o.kind = .openParen) (he : Expr.Lies (b + 1) ts e ps) (hc : c.kind = .closeParen) :
      Expr.Lies b (o :: (ts ++ [c])) e ps
  | unary {b : Nat} {t : Token} {ts : List Token} {op : UnaryOp} {e : Expr}
      {ps : List (Nat × Expr)} (ht : t.kind = op.kind) (he : Expr.Lies (b + 1) ts e ps) :
      Expr.Lies b (t :: ts) (.unary ⟨t.start, none⟩ op e) ((b, .unary ⟨t.start, none⟩ op e) :: ps)
  | binary {b : Nat} {t : Token} {ts us : List Token} {op : BinaryOp} {e f : Expr}
      {ps qs : List (Nat × Expr)} (he : Expr.Lies b ts e ps)
      (ht : BinaryOp.ofKind? t.kind = some op) (hf : Expr.Lies (b + ts.length + 1) us f qs) :
      Expr.Lies b (ts ++ t :: us) (.binary ⟨e.position, none⟩ e op f)
        ((b, .binary ⟨e.position, none⟩ e op f) :: (ps ++ qs))
  | assign {b : Nat} {t : Token} {ts us : List Token} {n : Note} {x : String} {e : Expr}
      {ps qs : List (Nat × Expr)} (hx : Expr.Lies b ts (.var n x) ps) (ht : t.kind = .assignment)
      (he : Expr.Lies (b + ts.length + 1) us e qs) :
      Expr.Lies b (ts ++ t :: us) (.assign ⟨n.position, none⟩ x e)
        ((b, .assign ⟨n.position, none⟩ x e) :: qs)
  | call {b : Nat} {o c : Token} {ts us : List Token} {n : Note} {f : String} {args : List Expr}
      {ps qs : List (Nat × Expr)} (hf : Expr.Lies b ts (.var n f) ps) (ho : o.kind = .openParen)
      (hargs : Expr.LieAll (b + ts.length + 1) us args qs) (hc : c.kind = .closeParen) :
      Expr.Lies b (ts ++ o :: (us ++ [c])) (.call ⟨n.position, none⟩ f args)
        ((b, .call ⟨n.position, none⟩ f args) :: qs)

/-- The tokens are those of the arguments of a call, with commas between them. -/
inductive Expr.LieAll : Nat → List Token → List Expr → List (Nat × Expr) → Prop
  | none {b : Nat} : Expr.LieAll b [] [] []
  | one {b : Nat} {ts : List Token} {e : Expr} {ps : List (Nat × Expr)}
      (he : Expr.Lies b ts e ps) :
      Expr.LieAll b ts [.actual ⟨e.position, .none⟩ e] ((b, .actual ⟨e.position, .none⟩ e) :: ps)
  | more {b : Nat} {comma : Token} {ts us : List Token} {e a : Expr} {args : List Expr}
      {ps qs : List (Nat × Expr)} (he : Expr.Lies b ts e ps) (hcomma : comma.kind = .comma)
      (hargs : Expr.LieAll (b + ts.length + 1) us (a :: args) qs) :
      Expr.LieAll b (ts ++ comma :: us) (.actual ⟨e.position, .none⟩ e :: a :: args)
        ((b, .actual ⟨e.position, .none⟩ e) :: (ps ++ qs))
end

/-! ## The first token of a node

`foremost?`  looks for a place in the tokens from a node on.  A node inside an expression is found
by dropping the tokens before it, and more tokens behind it change nothing. -/

namespace Syntax

/-- The place of the first token that is not an opening parenthesis. -/
def foremost? (ts : List Token) : Option Position :=
  (ts.find? (·.kind ≠ .openParen)).map Token.start

theorem foremost?_cons_of_ne {t : Token} (h : t.kind ≠ .openParen) (ts : List Token) :
    foremost? (t :: ts) = some t.start := by
  rw [foremost?, List.find?_cons_of_pos (by simpa using h), Option.map_some]

theorem foremost?_cons_of_eq {t : Token} (h : t.kind = .openParen) (ts : List Token) :
    foremost? (t :: ts) = foremost? ts := by
  rw [foremost?, List.find?_cons_of_neg (by simpa using h), foremost?]

/-- The place is found among the tokens before. -/
theorem foremost?_append {ts : List Token} {p : Position} (h : foremost? ts = some p)
    (us : List Token) : foremost? (ts ++ us) = some p := by
  obtain ⟨t, ht, rfl⟩ := Option.map_eq_some_iff.1 h
  rw [foremost?, List.find?_append, ht, Option.some_or, Option.map_some]

/-- The node, whose first token has the number `q.1`, has the place of the first token from there on
that is not an opening parenthesis, if `b` is the number of the first of the tokens `ts`. -/
def Placed (b : Nat) (ts : List Token) (q : Nat × Expr) : Prop :=
  ∃ before after, ts = before ++ after ∧ q.1 = b + before.length ∧
    foremost? after = some q.2.position

namespace Placed

variable {b : Nat} {ts : List Token} {q : Nat × Expr}

theorem first {e : Expr} (h : foremost? ts = some e.position) : Placed b ts (b, e) :=
  ⟨[], ts, rfl, rfl, h⟩

theorem append (h : Placed b ts q) (us : List Token) : Placed b (ts ++ us) q := by
  obtain ⟨before, after, rfl, hq, hfirst⟩ := h
  exact ⟨before, after ++ us, List.append_assoc _ _ _, hq, foremost?_append hfirst us⟩

theorem prepend (us : List Token) (h : Placed (b + us.length) ts q) : Placed b (us ++ ts) q := by
  obtain ⟨before, after, rfl, hq, hfirst⟩ := h
  refine ⟨us ++ before, after, (List.append_assoc _ _ _).symm, ?_, hfirst⟩
  rw [hq, List.length_append]
  omega

theorem cons (t : Token) (h : Placed (b + 1) ts q) : Placed b (t :: ts) q := prepend [t] h

end Placed

/-- A node of one token is not an opening parenthesis. -/
theorem Atom.kind_ne {t : Token} {e : Expr} (h : Atom t e) : t.kind ≠ .openParen := by
  cases h with
  | int ht | float ht | string ht | true ht | false ht | var ht => rw [ht]; decide

theorem Atom.nodes {t : Token} {e : Expr} (h : Atom t e.bare) : e.nodes = [e] := by
  cases e with
  | int | float | string | bool | var | absent => rfl
  | assign | binary | unary | call | actual =>
    rw [Expr.bare, Expr.relabel] at h
    cases h

end Syntax

/-! ## What the rules come to

One lemma for each rule: if the parts are settled, so is the whole.  The place of the whole is that
of its left part, and the nodes of the right part are moved by the tokens before it. -/

/-- The nodes of the expression are those of `ps`, and each has the place of its first token that is
not an opening parenthesis. -/
structure Expr.Settled (b : Nat) (ts : List Token) (e : Expr) (ps : List (Nat × Expr)) : Prop where
  foremost : foremost? ts = some e.position
  nodes : ps.map Prod.snd = e.nodes
  placed : ∀ q ∈ ps, Placed b ts q

/-- The same for the arguments of a call. -/
structure Expr.SettledAll (b : Nat) (ts : List Token) (args : List Expr)
    (ps : List (Nat × Expr)) : Prop where
  nodes : ps.map Prod.snd = Expr.nodesAll args
  placed : ∀ q ∈ ps, Placed b ts q

namespace Expr

section Rules

variable {b : Nat} {t o c : Token} {ts us : List Token} {n : Note} {x : String} {e f : Expr}
  {args : List Expr} {ps qs : List (Nat × Expr)}

namespace Settled

/-- A literal or a variable is one node, over its one token. -/
theorem atom (h : Atom t e.bare) (hplace : e.position = t.start) : Settled b [t] e [(b, e)] := by
  have hfirst : foremost? [t] = some e.position := by rw [foremost?_cons_of_ne h.kind_ne, hplace]
  exact ⟨hfirst, h.nodes.symm, List.forall_mem_singleton.2 (.first hfirst)⟩

/-- Parentheses add no node.  The place is that of the inside, and the opening parenthesis is one of
those that are passed over. -/
theorem group (ho : o.kind = .openParen) (h : Settled (b + 1) ts e ps) :
    Settled b (o :: (ts ++ [c])) e ps where
  foremost := by
    rw [foremost?_cons_of_eq ho]
    exact foremost?_append h.foremost _
  nodes := h.nodes
  placed q hq := ((h.placed q hq).append [c]).cons o

/-- A unary operator is a token that is no parenthesis, so the node has its place. -/
theorem unary {op : UnaryOp} (ht : t.kind = op.kind) (h : Settled (b + 1) ts e ps) :
    Settled b (t :: ts) (.unary ⟨t.start, none⟩ op e)
      ((b, .unary ⟨t.start, none⟩ op e) :: ps) := by
  have hne : t.kind ≠ .openParen := by
    rw [ht]
    cases op <;> decide
  have hfirst := foremost?_cons_of_ne hne ts
  refine ⟨hfirst, by rw [List.map_cons, h.nodes, Expr.nodes], List.forall_mem_cons.2 ⟨?_, ?_⟩⟩
  · exact .first hfirst
  · exact fun q hq ↦ (h.placed q hq).cons t

/-- A binary operator has the place of its left operand, and its tokens begin with those of this
operand, parentheses and all. -/
theorem binary {op : BinaryOp} (he : Settled b ts e ps)
    (hf : Settled (b + ts.length + 1) us f qs) :
    Settled b (ts ++ t :: us) (.binary ⟨e.position, none⟩ e op f)
      ((b, .binary ⟨e.position, none⟩ e op f) :: (ps ++ qs)) := by
  have hfirst := foremost?_append he.foremost (t :: us)
  refine ⟨hfirst, by rw [List.map_cons, List.map_append, he.nodes, hf.nodes, Expr.nodes],
    List.forall_mem_cons.2 ⟨.first hfirst, List.forall_mem_append.2 ⟨?_, ?_⟩⟩⟩
  · exact fun q hq ↦ (he.placed q hq).append _
  · exact fun q hq ↦ ((hf.placed q hq).cons t).prepend ts

theorem assign (hx : Settled b ts (.var n x) ps) (he : Settled (b + ts.length + 1) us e qs) :
    Settled b (ts ++ t :: us) (.assign ⟨n.position, none⟩ x e)
      ((b, .assign ⟨n.position, none⟩ x e) :: qs) := by
  have hfirst := foremost?_append hx.foremost (t :: us)
  refine ⟨hfirst, by rw [List.map_cons, he.nodes, Expr.nodes], List.forall_mem_cons.2 ⟨?_, ?_⟩⟩
  · exact .first hfirst
  · exact fun q hq ↦ ((he.placed q hq).cons t).prepend ts

theorem call (hx : Settled b ts (.var n x) ps)
    (hargs : SettledAll (b + ts.length + 1) us args qs) :
    Settled b (ts ++ o :: (us ++ [c])) (.call ⟨n.position, none⟩ x args)
      ((b, .call ⟨n.position, none⟩ x args) :: qs) := by
  have hfirst := foremost?_append hx.foremost (o :: (us ++ [c]))
  refine ⟨hfirst, by rw [List.map_cons, hargs.nodes, Expr.nodes], List.forall_mem_cons.2 ⟨?_, ?_⟩⟩
  · exact .first hfirst
  · exact fun q hq ↦ (((hargs.placed q hq).append [c]).cons o).prepend ts

/-- An argument of a call is one more node over the tokens of its expression, with the same
place. -/
theorem actual (h : Settled b ts e ps) : Settled b ts (.actual ⟨e.position, none⟩ e)
    ((b, .actual ⟨e.position, none⟩ e) :: ps) where
  foremost := h.foremost
  nodes := by rw [List.map_cons, h.nodes, Expr.nodes]
  placed := List.forall_mem_cons.2 ⟨.first h.foremost, h.placed⟩

end Settled

namespace SettledAll

theorem none : SettledAll b [] [] [] := ⟨rfl, List.forall_mem_nil _⟩

theorem one (h : Settled b ts e ps) : SettledAll b ts [e] ps :=
  ⟨by rw [h.nodes, nodesAll, nodesAll, List.append_nil], h.placed⟩

theorem more (h : Settled b ts e ps) (hargs : SettledAll (b + ts.length + 1) us args qs) :
    SettledAll b (ts ++ t :: us) (e :: args) (ps ++ qs) := by
  refine ⟨by rw [List.map_append, h.nodes, hargs.nodes, nodesAll],
    List.forall_mem_append.2 ⟨?_, ?_⟩⟩
  · exact fun q hq ↦ (h.placed q hq).append _
  · exact fun q hq ↦ ((hargs.placed q hq).cons t).prepend ts

end SettledAll

end Rules

-- By recursion on the rules themselves: an argument of a call is an expression again.
mutual
/-- **Every node has the place of the first of its tokens that is not an opening parenthesis.** -/
theorem Lies.settled {b : Nat} {ts : List Token} {e : Expr} {ps : List (Nat × Expr)} :
    Lies b ts e ps → Settled b ts e ps
  | .atom h hplace => .atom h hplace
  | .group ho he _ => he.settled.group ho
  | .unary ht he => he.settled.unary ht
  | .binary he _ hf => he.settled.binary hf.settled
  | .assign hx _ he => hx.settled.assign he.settled
  | .call hf _ hargs _ => hf.settled.call hargs.settledAll

/-- The same for the arguments of a call. -/
theorem LieAll.settledAll {b : Nat} {ts : List Token} {args : List Expr}
    {ps : List (Nat × Expr)} : LieAll b ts args ps → SettledAll b ts args ps
  | .none => .none
  | .one he => .one he.settled.actual
  | .more he _ hargs => .more he.settled.actual hargs.settledAll
end

end Expr

/-! ## Reading follows the rules

The loop of the parser holds an expression that covers the tokens read so far, and every step
extends both.  The number of the first token is not known while reading, so `Expr.Covers` is about
all of them. -/

/-- The expression lies over the tokens, whatever the number of the first of them is. -/
def Expr.Covers (ts : List Token) (e : Expr) : Prop := ∀ b, ∃ ps, e.Lies b ts ps

/-- The same for the arguments of a call. -/
def Expr.CoverAll (ts : List Token) (args : List Expr) : Prop :=
  ∀ b, ∃ ps, Expr.LieAll b ts args ps

namespace Grammar

open Parse

section Reading

variable {expr : Power → Parse Expr} (hexpr : ∀ p, Sound (expr p) Expr.Covers) {c d : Cursor}
  {e : Expr}

include hexpr

/-- What an expression begins with lies over the tokens that are read for it.  The number of the
first token is not fixed, since the expression may be an operand further to the right. -/
theorem opening_covers (hc : c.Closed) {rule : Opening}
    (hrule : Table.standard.opening c.kind = some rule) (h : opening expr rule c = .ok e d) :
    ∃ ts, c.Reads ts d ∧ e.Covers ts := by
  have hread := hc.reads_next (Table.kind_ne_endOfText_of_opening hrule)
  cases rule with
  | primary =>
    simp only [opening, bind_eq_ok, advance_apply, EStateM.Result.ok.injEq] at h
    obtain ⟨_, _, ⟨rfl, rfl⟩, h⟩ := h
    cases he' : Grammar.primary c.current with
    | ok e' =>
      rw [he'] at h
      obtain ⟨rfl, rfl⟩ := pure_eq_ok.1 h
      have hplace := (placedIn_primary (S := (· = c.current.start)) rfl he').position
      exact ⟨_, hread, fun b ↦ ⟨_, .atom (atom_of_primary he') hplace⟩⟩
    | error x =>
      rw [he'] at h
      exact (fail_eq_ok.1 h).elim
  | unary =>
    simp only [opening, bind_eq_ok, advance_apply, EStateM.Result.ok.injEq] at h
    obtain ⟨_, _, ⟨rfl, rfl⟩, h⟩ := h
    cases hop : UnaryOp.ofKind? c.current.kind with
    | none =>
      rw [hop] at h
      exact (fail_eq_ok.1 h).elim
    | some op =>
      rw [hop] at h
      obtain ⟨e', _, he', h⟩ := bind_eq_ok.1 h
      obtain ⟨rfl, rfl⟩ := pure_eq_ok.1 h
      obtain ⟨ts, hts, hcovers⟩ := hexpr .unary (hc.of_reads hread) he'
      refine ⟨_, hread.trans hts, fun b ↦ ?_⟩
      obtain ⟨ps, hps⟩ := hcovers (b + 1)
      exact ⟨_, .unary (UnaryOp.ofKind?_eq_some_iff.1 hop) hps⟩
  | grouping =>
    simp only [opening, bind_eq_ok, advance_apply, EStateM.Result.ok.injEq,
      expectDetailed_eq_ok, pure_eq_ok] at h
    obtain ⟨_, _, ⟨rfl, rfl⟩, e', c', he', _, _, ⟨hclose, rfl, rfl⟩, rfl, rfl⟩ := h
    obtain ⟨ts, hts, hcovers⟩ := hexpr .lowest (hc.of_reads hread) he'
    have hlast := ((hc.of_reads hread).of_reads hts).reads_next (by rw [hclose]; decide)
    refine ⟨_, hread.trans (hts.trans hlast), fun b ↦ ?_⟩
    obtain ⟨ps, hps⟩ := hcovers (b + 1)
    exact ⟨ps, .group (Table.kind_of_opening_grouping hrule) hps hclose⟩

/-- The arguments of a call lie over the tokens between the parentheses. -/
theorem actuals_covers (n : Nat) : Sound (actuals expr n) fun ts args ↦
    args ≠ [] ∧ Expr.CoverAll ts args := by
  induction n with
  | zero => exact fun _ _ _ _ h ↦ (throw_eq_ok.1 h).elim
  | succ n ih =>
    intro c d args hc h
    simp only [actuals, bind_eq_ok, kind_apply, EStateM.Result.ok.injEq] at h
    obtain ⟨e, c₁, he, _, _, ⟨rfl, rfl⟩, h⟩ := h
    obtain ⟨ts, hts, hcovers⟩ := hexpr .lowest hc he
    have hc₁ := hc.of_reads hts
    by_cases hcomma : c₁.kind = .comma
    · simp only [if_pos hcomma, bind_eq_ok, advance_apply, EStateM.Result.ok.injEq,
        pure_eq_ok] at h
      obtain ⟨_, _, ⟨rfl, rfl⟩, args, c₂, hargs, rfl, rfl⟩ := h
      have hread := hc₁.reads_next (by rw [hcomma]; decide)
      obtain ⟨us, hus, hne, hcoverAll⟩ := ih (hc₁.of_reads hread) hargs
      refine ⟨_, hts.trans (hread.trans hus), List.cons_ne_nil _ _, fun b ↦ ?_⟩
      obtain ⟨a, args, rfl⟩ := List.exists_cons_of_ne_nil hne
      obtain ⟨ps, hps⟩ := hcovers b
      obtain ⟨qs, hqs⟩ := hcoverAll (b + ts.length + 1)
      exact ⟨_, .more hps hcomma hqs⟩
    · rw [if_neg hcomma, pure_eq_ok] at h
      obtain ⟨rfl, rfl⟩ := h
      refine ⟨ts, hts, List.cons_ne_nil _ _, fun b ↦ ?_⟩
      obtain ⟨ps, hps⟩ := hcovers b
      exact ⟨_, .one hps⟩

/-- What an expression goes on with lies behind it. -/
theorem following_covers {left : Expr} {ts : List Token} (hleft : left.Covers ts) (hc : c.Closed)
    {rule : Following} (hrule : Table.standard.following c.kind = some rule) {n : Nat} {p : Power}
    (h : following expr n left p rule c = .ok e d) : ∃ us, c.Reads us d ∧ e.Covers (ts ++ us) := by
  have hread := hc.reads_next (Table.kind_ne_endOfText_of_following hrule)
  have hc' := hc.of_reads hread
  cases rule with
  | binary =>
    simp only [following, bind_eq_ok, advance_apply, EStateM.Result.ok.injEq] at h
    obtain ⟨_, _, ⟨rfl, rfl⟩, h⟩ := h
    cases hop : BinaryOp.ofKind? c.current.kind with
    | none =>
      rw [hop] at h
      exact (fail_eq_ok.1 h).elim
    | some op =>
      rw [hop] at h
      obtain ⟨right, _, hright, h⟩ := bind_eq_ok.1 h
      obtain ⟨rfl, rfl⟩ := pure_eq_ok.1 h
      obtain ⟨us, hus, hcovers⟩ := hexpr _ hc' hright
      refine ⟨_, hread.trans hus, fun b ↦ ?_⟩
      obtain ⟨ps, hps⟩ := hleft b
      -- the right operand starts behind those of the left one and the operator
      obtain ⟨qs, hqs⟩ := hcovers (b + ts.length + 1)
      exact ⟨_, .binary hps hop hqs⟩
  | assignment =>
    cases left with
    | var note x =>
      simp only [following, bind_eq_ok, advance_apply, EStateM.Result.ok.injEq, pure_eq_ok] at h
      obtain ⟨_, _, ⟨rfl, rfl⟩, value, _, hvalue, rfl, rfl⟩ := h
      obtain ⟨us, hus, hcovers⟩ := hexpr .comma hc' hvalue
      refine ⟨_, hread.trans hus, fun b ↦ ?_⟩
      obtain ⟨ps, hps⟩ := hleft b
      obtain ⟨qs, hqs⟩ := hcovers (b + ts.length + 1)
      exact ⟨_, .assign hps (Table.kind_of_following_assignment hrule) hqs⟩
    | _ => exact (unexpected_eq_ok.1 h).elim
  | call =>
    cases left with
    | var note x =>
      simp only [following, bind_eq_ok, ite_bind_eq_ok, advance_apply, EStateM.Result.ok.injEq,
        kind_apply, expectDetailed_eq_ok, pure_eq_ok] at h
      obtain ⟨_, _, ⟨rfl, rfl⟩, _, _, ⟨rfl, rfl⟩, args, c₁, hargs, _, _, ⟨hclose, rfl, rfl⟩, rfl,
        rfl⟩ := h
      have hsound : Sound (actuals expr n) Expr.CoverAll := (actuals_covers hexpr n).imp And.right
      obtain ⟨us, hus, hcoverAll⟩ := hsound.ite_pure (fun b ↦ ⟨[], .none⟩) hc' hargs
      have hlast := (hc'.of_reads hus).reads_next (by rw [hclose]; decide)
      refine ⟨_, hread.trans (hus.trans hlast), fun b ↦ ?_⟩
      obtain ⟨ps, hps⟩ := hleft b
      obtain ⟨qs, hqs⟩ := hcoverAll (b + ts.length + 1)
      exact ⟨_, .call hps (Table.kind_of_following_call hrule) hqs hclose⟩
    | _ => exact (unexpected_eq_ok.1 h).elim

/-- The loop goes on to the right of what has been read. -/
theorem climb_covers (p : Power) (k : Nat) : ∀ {left : Expr} {ts : List Token} {c d : Cursor}
    {e : Expr}, left.Covers ts → c.Closed → climb .standard expr p k left c = .ok e d →
    ∃ us, c.Reads us d ∧ e.Covers (ts ++ us) := by
  induction k with
  | zero => exact fun _ _ h ↦ (throw_eq_ok.1 h).elim
  | succ k ih =>
    intro left ts c d e hleft hc h
    simp only [climb, bind_eq_ok, current_apply, EStateM.Result.ok.injEq] at h
    obtain ⟨_, _, ⟨rfl, rfl⟩, h⟩ := h
    by_cases hp : p < Table.standard.power c.current.kind
    · rw [if_pos hp] at h
      cases hrule : Table.standard.following c.current.kind with
      | none =>
        rw [hrule] at h
        exact (fail_eq_ok.1 h).elim
      | some rule =>
        rw [hrule] at h
        obtain ⟨left', c₁, hleft', h⟩ := bind_eq_ok.1 h
        obtain ⟨us, hus, hcovers⟩ := following_covers hexpr hleft hc hrule hleft'
        obtain ⟨vs, hvs, hcovers'⟩ := ih hcovers (hc.of_reads hus) h
        exact ⟨us ++ vs, hus.trans hvs, List.append_assoc ts us vs ▸ hcovers'⟩
    · rw [if_neg hp, pure_eq_ok] at h
      obtain ⟨rfl, rfl⟩ := h
      exact ⟨[], .nil, (List.append_nil ts).symm ▸ hleft⟩

end Reading

/-- **An expression that is read lies over the tokens that were read.** -/
theorem exprWithin_covers (n : Nat) : ∀ p, Sound (exprWithin .standard n p) Expr.Covers := by
  induction n with
  | zero => exact fun _ _ _ _ _ h ↦ (throw_eq_ok.1 h).elim
  | succ n ih =>
    intro p c d e hc h
    simp only [exprWithin, bind_eq_ok, current_apply, EStateM.Result.ok.injEq] at h
    obtain ⟨_, _, ⟨rfl, rfl⟩, h⟩ := h
    cases hrule : Table.standard.opening c.current.kind with
    | none =>
      rw [hrule] at h
      exact (fail_eq_ok.1 h).elim
    | some rule =>
      rw [hrule] at h
      obtain ⟨left, c₁, hleft, h⟩ := bind_eq_ok.1 h
      obtain ⟨ts, hts, hcovers⟩ := opening_covers ih hc hrule hleft
      obtain ⟨us, hus, hcovers'⟩ := climb_covers ih p (n + 1) hcovers (hc.of_reads hts) h
      exact ⟨ts ++ us, hts.trans hus, hcovers'⟩

end Grammar

/-! ## Every place in a list of tokens

A cursor that has moved `i` times stands on token number `i`.  From there on the tokens ahead are
those from number `i` on, until the last of them, where a cursor stays. -/

namespace Cursor

/-- At first all tokens are ahead. -/
theorem ahead_of_ofTokens? {c : Cursor} {ts : List Token} (h : ofTokens? ts = some c) :
    c.ahead = ts := by
  cases ts with
  | nil => cases h
  | cons t us =>
    cases h
    rfl

/-- A cursor at the last token stays there. -/
theorem ahead_next_eq (c : Cursor) : c.next.ahead = if c.rest = [] then c.ahead else c.rest := by
  obtain ⟨current, rest, moves⟩ := c
  cases rest <;> rfl

/-- After `i` moves, the tokens from number `i` on are ahead, or the last one alone. -/
theorem ahead_iterate_next {c : Cursor} {ts : List Token} {eof : Token} (hc : c.ahead = ts ++ [eof])
    (i : Nat) : (next^[i] c).ahead = (ts ++ [eof]).drop (min i ts.length) := by
  induction i with
  | zero => rw [Nat.zero_min]; exact hc
  | succ i ih =>
    have hrest : (next^[i] c).rest = (ts ++ [eof]).drop (min i ts.length + 1) := by
      rw [← List.tail_drop, ← ih, ahead, List.tail_cons]
    rw [Function.iterate_succ_apply', ahead_next_eq, hrest, ih]
    split
    case isTrue hnil =>
      have hlen := List.drop_eq_nil_iff.1 hnil
      rw [List.length_append, List.length_singleton] at hlen
      congr 1
      omega
    case isFalse hne =>
      have hlen := mt List.drop_eq_nil_iff.2 hne
      rw [List.length_append, List.length_singleton] at hlen
      congr 1
      omega

end Cursor

namespace Grammar

/-- **The places of an expression.**  Let an expression be read, with any power, from token number
`i` of tokens that end with the end of the text.  Then it has the place of the first token from
number `i` on that is not an opening parenthesis.  Its nodes lie over the tokens that were read, and
each of them has the place of the first token, from that on with which its own tokens begin, that is
not an opening parenthesis. -/
theorem expr_places {ts : List Token} {eof : Token} (heof : eof.kind = .endOfText) {c d : Cursor}
    (hc : Cursor.ofTokens? (ts ++ [eof]) = some c) {i : Nat} {p : Power} {e : Expr}
    (h : expr .standard p (Cursor.next^[i] c) = .ok e d) :
    foremost? ((ts ++ [eof]).drop i) = some e.position ∧
    ∃ us ps, (ts ++ [eof]).drop i = us ++ d.ahead ∧ e.Lies i us ps ∧ ps.map Prod.snd = e.nodes ∧
      ∀ k f, (k, f) ∈ ps → foremost? ((ts ++ [eof]).drop k) = some f.position := by
  have hahead := Cursor.ahead_iterate_next (Cursor.ahead_of_ofTokens? hc) i
  have hends : Ends (Cursor.next^[i] c).ahead := by
    rw [hahead, List.drop_append_of_le_length (Nat.min_le_right _ _)]
    exact ⟨eof, by simp, heof⟩
  obtain ⟨us, hus, hcovers⟩ := exprWithin_covers _ p hends.closed h
  obtain ⟨ps, hps⟩ := hcovers i
  have hsettled := hps.settled
  have hsplit : (ts ++ [eof]).drop i = us ++ d.ahead := by
    -- some token was read, and the end of the text was not, so there are fewer moves than tokens
    have hpos : us ≠ [] := by
      rintro rfl
      cases hsettled.foremost
    have hread := hahead.symm.trans hus.ahead
    have hlen := congrArg List.length hread
    rw [List.length_drop, List.length_append, List.length_append, List.length_singleton,
      Cursor.ahead, List.length_cons] at hlen
    have hpos' := List.length_pos_iff.2 hpos
    rwa [Nat.min_eq_left (by omega)] at hread
  refine ⟨?_, us, ps, hsplit, hps, hsettled.nodes, fun k f hk ↦ ?_⟩
  · rw [hsplit]
    exact foremost?_append hsettled.foremost _
  · obtain ⟨before, after, rfl, rfl, hfirst⟩ := hsettled.placed _ hk
    rw [← List.drop_drop, hsplit, List.append_assoc, List.drop_left]
    exact foremost?_append hfirst _

/-- The tokens of `x = (y) + f((z), 2)`, one in each column. -/
def groupedTokens : List Token :=
  [(.identifier, "x"), (.assignment, "="), (.openParen, "("), (.identifier, "y"),
    (.closeParen, ")"), (.plus, "+"), (.identifier, "f"), (.openParen, "("), (.openParen, "("),
    (.identifier, "z"), (.closeParen, ")"), (.comma, ","), (.number, "2"),
    (.closeParen, ")")].zipIdx.map fun ((kind, value), i) ↦
      ⟨kind, value, ⟨1, i + 1⟩, ⟨1, i + 2⟩⟩

/-- What is read from the third of them on. -/
def grouped : Expr :=
  .binary ⟨⟨1, 4⟩, none⟩ (.var ⟨⟨1, 4⟩, none⟩ "y") .add
    (.call ⟨⟨1, 7⟩, none⟩ "f" [.actual ⟨⟨1, 10⟩, none⟩ (.var ⟨⟨1, 10⟩, none⟩ "z"),
      .actual ⟨⟨1, 13⟩, none⟩ (.int ⟨⟨1, 13⟩, none⟩ 2)])

/-- The cursor on the first of them. -/
def groupedStart : Cursor :=
  ⟨⟨.identifier, "x", ⟨1, 1⟩, ⟨1, 2⟩⟩, groupedTokens.tail ++ [.endAt ⟨1, 15⟩], 0⟩

theorem expr_places_grouped :
    (Token.endAt ⟨1, 15⟩).kind = .endOfText ∧
      Cursor.ofTokens? (groupedTokens ++ [.endAt ⟨1, 15⟩]) = some groupedStart ∧
      expr .standard .lowest (Cursor.next^[2] groupedStart) =
        .ok grouped ⟨.endAt ⟨1, 15⟩, [], 14⟩ ∧
      foremost? ((groupedTokens ++ [Token.endAt ⟨1, 15⟩]).drop 2) = some ⟨1, 4⟩ ∧
      ∃ us ps, (groupedTokens ++ [Token.endAt ⟨1, 15⟩]).drop 2 = us ++ [Token.endAt ⟨1, 15⟩] ∧
        grouped.Lies 2 us ps ∧ ps.map Prod.snd = grouped.nodes := by
  have heof : (Token.endAt ⟨1, 15⟩).kind = .endOfText := rfl
  have hc : Cursor.ofTokens? (groupedTokens ++ [.endAt ⟨1, 15⟩]) = some groupedStart := rfl
  have hread : expr .standard .lowest (Cursor.next^[2] groupedStart) =
      .ok grouped ⟨.endAt ⟨1, 15⟩, [], 14⟩ := rfl
  obtain ⟨hplace, us, ps, hsplit, hlies, hnodes, -⟩ := expr_places heof hc hread
  exact ⟨heof, hc, hread, hplace, us, ps, hsplit, hlies, hnodes⟩

end Grammar

end Typewright
