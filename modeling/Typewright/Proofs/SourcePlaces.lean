import Typewright.Proofs.Caret
import Typewright.Proofs.Places

/-!
# Diagnostics point into the source

The places of a tree come from the tokens it was read from.  `Parse.Yields S m c Q` says that the
action `m`, started from `c`, leaves tokens whose places are among `S` if it was given such tokens,
and that `Q` holds of what it gives.  The end of the text is left out of this: it has a place too,
but no rule of the grammar takes a place from it where something can be reported.  This is shown of
the rules one by one, and the result is `Program.places_ofTokens`.

Together with `Program.diagnostics_located`, which is about the check, this is
`Program.diagnostics_in_source`: a diagnostic has the place of a token of the source, and the line
that is looked up for it is the line where this token stands.

## A logic for actions

`Yields` is a kind of triple.  Its precondition is fixed, that the tokens ahead have good places,
and its postcondition is `Q` together with the same about the tokens that are left.  There is a rule
for each way in which actions are put together: `pure`, `bind`, `ite`, and `peek` for a look at the
current token that reads nothing.  The proof for a rule of the grammar then follows its text line by
line.

It says nothing about which tokens are read, and that is on purpose.  Whether a tree is one of the
tokens is the matter of the files on parsing; here only places count, and these are easy to follow.

A place is taken from a token before it is known what the token is, so at each such point there has
to be a reason why it is not the end of the text.  Mostly the token was looked at already, to choose
the rule.
-/

set_option autoImplicit false

namespace Typewright

variable {S : Position → Prop}

/-! ## Tokens with places

The invariant of a cursor, and the rules of the logic. -/

/-- The places of the tokens from the current one on are among `S`, except that of the end. -/
def Cursor.Marked (S : Position → Prop) (c : Cursor) : Prop :=
  ∀ t ∈ c.ahead, t.kind ≠ .endOfText → S t.start

namespace Cursor.Marked

variable {c : Cursor}

/-- The current token has a place among `S`, unless it is the end of the text. -/
theorem current (h : c.Marked S) (hc : c.kind ≠ .endOfText) : S c.current.start :=
  h c.current List.mem_cons_self hc

/-- The tokens after the current one are among the tokens ahead. -/
theorem next (h : c.Marked S) : c.next.Marked S := by
  intro t ht
  refine h t ?_
  obtain ⟨current, rest, moves⟩ := c
  cases rest with
  | nil => exact ht
  | cons u us => exact List.mem_cons_of_mem current ht

end Cursor.Marked

namespace Parse

variable {α β : Type}

/-- From `c`, where the places ahead are among `S`, the action gives something with `Q`, if it does
not stop, and the places ahead are still among `S`. -/
def Yields (S : Position → Prop) (m : Parse α) (c : Cursor) (Q : α → Prop) : Prop :=
  c.Marked S → ∀ a d, m c = .ok a d → d.Marked S ∧ Q a

namespace Yields

variable {m : Parse α} {f : α → Parse β} {c : Cursor} {Q : α → Prop} {R : β → Prop}

theorem of_eq {m' : Parse α} (h : m c = m' c) (hm' : m'.Yields S c Q) : m.Yields S c Q := by
  intro hc a d ha
  exact hm' hc a d (h ▸ ha)

theorem pure {a : α} (ha : Q a) : (Pure.pure a : Parse α).Yields S c Q := by
  intro hc b d h
  obtain ⟨rfl, rfl⟩ := pure_eq_ok.1 h
  exact ⟨hc, ha⟩

theorem throw (s : Stop) : (throw s : Parse α).Yields S c Q := fun _ _ _ h ↦ (throw_eq_ok.1 h).elim

theorem fail (x : Diagnostic) : (fail x : Parse α).Yields S c Q := fun _ _ _ h ↦
  (fail_eq_ok.1 h).elim

theorem unexpected (message : String) : (unexpected message : Parse α).Yields S c Q := fun _ _ _ h ↦
  (unexpected_eq_ok.1 h).elim

/-- A move gives a token that is not the end, and its place with it. -/
theorem advance (hc : c.kind ≠ .endOfText) : Parse.advance.Yields S c fun t ↦ S t.start := by
  intro hmarked t d h
  cases h
  exact ⟨hmarked.next, hmarked.current hc⟩

theorem expect {k : Kind} (hk : k ≠ .endOfText) :
    (expect k).Yields S c fun t ↦ S t.start := by
  intro hmarked t d h
  obtain ⟨hkind, rfl, rfl⟩ := expect_eq_ok.1 h
  exact ⟨hmarked.next, hmarked.current (hkind ▸ hk)⟩

theorem expectDetailed {k : Kind} (hk : k ≠ .endOfText) (message : String) :
    (expectDetailed k message).Yields S c fun t ↦ S t.start := by
  intro hmarked t d h
  obtain ⟨hkind, rfl, rfl⟩ := expectDetailed_eq_ok.1 h
  exact ⟨hmarked.next, hmarked.current (hkind ▸ hk)⟩

/-- One action after the other.  What the first one gives is known to satisfy `Q` when the second
one is looked at. -/
theorem bind (hm : m.Yields S c Q) (hf : ∀ a d, Q a → (f a).Yields S d R) :
    (m >>= f).Yields S c R := by
  intro hc b e h
  obtain ⟨a, d, ha, hb⟩ := bind_eq_ok.1 h
  obtain ⟨hd, hQ⟩ := hm hc a d ha
  exact hf a d hQ hd b e hb

/-- Looking at the current token before going on. -/
theorem peek {a : α} (hm : m c = .ok a c) (hf : (f a).Yields S c R) : (m >>= f).Yields S c R :=
  of_eq (bind_of_ok hm f) hf

theorem peek_kind {f : Kind → Parse β} (hf : (f c.kind).Yields S c R) :
    (kind >>= f).Yields S c R :=
  peek (kind_apply c) hf

theorem peek_current {f : Token → Parse β} (hf : (f c.current).Yields S c R) :
    (current >>= f).Yields S c R :=
  peek (current_apply c) hf

theorem peek_position {f : Position → Parse β} (hf : (f c.position).Yields S c R) :
    (position >>= f).Yields S c R :=
  peek (position_apply c) hf

theorem ite {P : Prop} [Decidable P] {m' : Parse α} (hm : P → m.Yields S c Q)
    (hm' : ¬ P → m'.Yields S c Q) : (if P then m else m').Yields S c Q := by
  by_cases hP : P
  · rw [if_pos hP]
    exact hm hP
  · rw [if_neg hP]
    exact hm' hP

end Yields

end Parse

/-! ## The rules of the grammar

The grammar is a set of mutually recursive functions with a bound on their depth.  Each lemma is
about one of them and takes the facts about the functions it calls as hypotheses; the inductions on
the bound come last, where the knot is tied. -/

/-- The places of the expression are among `S`, and it was not left out. -/
structure Expr.PlacedIn (S : Position → Prop) (e : Expr) : Prop where
  position : S e.position
  places : ∀ x ∈ e.places, S x

namespace Grammar

open Parse

/-! ### Expressions

A node has the place of its own token, or that of its left operand, which was read before.  So what
is known of the operand that has been read is carried through the loop. -/

/-- A node of one token has its place. -/
theorem placedIn_primary {t : Token} {e : Expr} (ht : S t.start) (h : primary t = .ok e) :
    e.PlacedIn S := by
  have hliteral : ∀ {f : Expr}, f.position = t.start → f.places = [t.start] →
      (.ok f : Except Diagnostic Expr) = .ok e → e.PlacedIn S := by
    rintro f hposition hplaces ⟨⟩
    exact ⟨hposition ▸ ht, by rw [hplaces, List.forall_mem_singleton]; exact ht⟩
  unfold primary at h
  split at h
  · split at h
    · split at h
      · exact hliteral rfl rfl h
      · cases h
    · split at h
      · exact hliteral rfl rfl h
      · cases h
  · exact hliteral rfl rfl h
  · exact hliteral rfl rfl h
  · exact hliteral rfl rfl h
  · exact hliteral rfl rfl h
  · cases h

section Expressions

variable {expr : Power → Parse Expr} (hexpr : ∀ p c, (expr p).Yields S c (Expr.PlacedIn S))
  {c : Cursor}

include hexpr

/-- What an expression begins with.  A parenthesis leaves no trace: the expression inside keeps the
place it has. -/
theorem opening_yields (hc : c.kind ≠ .endOfText) (rule : Opening) :
    (opening expr rule).Yields S c (Expr.PlacedIn S) := by
  cases rule with
  | primary =>
    refine .bind (.advance hc) fun t d ht ↦ ?_
    cases he : primary t with
    | ok e => exact .pure (placedIn_primary ht he)
    | error x => exact .fail x
  | unary =>
    refine .bind (.advance hc) fun t d ht ↦ ?_
    cases UnaryOp.ofKind? t.kind with
    | none => exact .fail _
    | some op =>
      refine .bind (hexpr _ _) fun e _ he ↦ .pure ⟨ht, ?_⟩
      rw [Expr.places_unary, List.forall_mem_cons]
      exact ⟨ht, he.places⟩
  | grouping =>
    exact .bind (.advance hc) fun _ _ _ ↦ .bind (hexpr _ _) fun _ _ he ↦
      .bind (.expectDetailed (by decide) _) fun _ _ _ ↦ .pure he

/-- The arguments of a call, each with the place of its own expression.  The node around an argument
takes its place from there. -/
theorem actuals_yields (n : Nat) : ∀ c,
    (actuals expr n).Yields S c fun args ↦ ∀ x ∈ args.flatMap Expr.places, S x := by
  induction n with
  | zero => exact fun _ ↦ .throw _
  | succ n ih =>
    intro c
    refine .bind (hexpr _ _) fun e d he ↦ ?_
    have hactual : ∀ x ∈ (Expr.actual { position := e.position } e).places, S x := by
      rw [Expr.places_actual, List.forall_mem_cons]
      exact ⟨he.position, he.places⟩
    refine .peek_kind (.ite (fun hcomma ↦ ?_) fun _ ↦ ?_)
    · refine .bind (.advance (by rw [hcomma]; decide)) fun _ _ _ ↦ .bind (ih _) fun args _ hargs ↦
        .pure ?_
      rw [List.flatMap_cons, List.forall_mem_append]
      exact ⟨hactual, hargs⟩
    · refine .pure ?_
      rw [List.flatMap_singleton]
      exact hactual

/-- What an expression goes on with has the place of what is to the left. -/
theorem following_yields (n : Nat) {left : Expr} (hleft : left.PlacedIn S) (p : Power)
    (hc : c.kind ≠ .endOfText) (rule : Following) :
    (following expr n left p rule).Yields S c (Expr.PlacedIn S) := by
  cases rule with
  | binary =>
    refine .bind (.advance hc) fun t d _ ↦ ?_
    cases BinaryOp.ofKind? t.kind with
    | none => exact .fail _
    | some op =>
      refine .bind (hexpr _ _) fun right _ hright ↦ .pure ⟨hleft.position, ?_⟩
      rw [Expr.places_binary, List.forall_mem_cons, List.forall_mem_append]
      exact ⟨hleft.position, hleft.places, hright.places⟩
  | assignment =>
    cases left with
    | var note target =>
      refine .bind (.advance hc) fun _ _ _ ↦ .bind (hexpr _ _) fun value _ hvalue ↦
        .pure ⟨hleft.position, ?_⟩
      rw [Expr.places_assign, List.forall_mem_cons]
      exact ⟨hleft.position, hvalue.places⟩
    | _ => exact .unexpected _
  | call =>
    cases left with
    | var note callee =>
      refine .bind (.advance hc) fun _ d _ ↦ .peek_kind ?_
      -- what comes after the arguments is the same with and without any
      have hclose : ∀ args d, (∀ x ∈ args.flatMap Expr.places, S x) → (do
          let _ ← expectDetailed .closeParen "expected ')' after call arguments"
          return Expr.call { position := note.position } callee args).Yields S d
            (Expr.PlacedIn S) := by
        intro args d hargs
        refine .bind (.expectDetailed (by decide) _) fun _ _ _ ↦ .pure ⟨hleft.position, ?_⟩
        rw [Expr.places_call, List.forall_mem_cons]
        exact ⟨hleft.position, hargs⟩
      exact .ite (fun _ ↦ .bind (.pure (List.forall_mem_nil _)) hclose) fun _ ↦
        .bind (actuals_yields hexpr n d) hclose
    | _ => exact .unexpected _

/-- The loop keeps the place of what has been read so far.  A round may read an operator and an
operand, but the new tree has the place of the old one. -/
theorem climb_yields (p : Power) (n : Nat) : ∀ left c, left.PlacedIn S →
    (climb .standard expr p n left).Yields S c (Expr.PlacedIn S) := by
  induction n with
  | zero => exact fun _ _ _ ↦ .throw _
  | succ n ih =>
    intro left c hleft
    refine .peek_current (.ite (fun _ ↦ ?_) fun _ ↦ .pure hleft)
    cases hrule : Table.standard.following c.current.kind with
    | none => exact .fail _
    | some rule =>
      exact .bind (following_yields hexpr n hleft _
        (Table.kind_ne_endOfText_of_following hrule) rule) ih

end Expressions

/-- **An expression has its places from the tokens it is read from**, and it is not left out. -/
theorem exprWithin_yields (n : Nat) : ∀ p c,
    (exprWithin .standard n p).Yields S c (Expr.PlacedIn S) := by
  induction n with
  | zero => exact fun _ _ ↦ .throw _
  | succ n ih =>
    intro p c
    refine .peek_current ?_
    cases hrule : Table.standard.opening c.current.kind with
    | none => exact .fail _
    | some rule =>
      exact .bind (opening_yields ih (Table.kind_ne_endOfText_of_opening hrule) rule)
        (climb_yields ih p (n + 1))

/-! ### Statements

An expression that was left out is noted at the token that stands in its place.  Nothing is ever
reported about it, so it counts no place among those of a statement. -/

theorem varDecl_yields {c : Cursor} (hc : c.kind ≠ .endOfText) :
    varDecl.Yields S c fun v ↦ S v.position :=
  .bind (.advance hc) fun _ _ ht ↦ .bind (.expectDetailed (by decide) _) fun _ _ _ ↦
    .bind (.expectDetailed (by decide) _) fun _ _ _ ↦ .bind (.expect (by decide)) fun _ _ _ ↦
    .pure ht

theorem locals_yields (n : Nat) : ∀ c,
    (locals n).Yields S c fun vs ↦ ∀ x ∈ vs.map VarDecl.position, S x := by
  induction n with
  | zero => exact fun _ ↦ .throw _
  | succ n ih =>
    intro c
    refine .peek_kind (.ite (fun hvar ↦ ?_) fun _ ↦ .pure (List.forall_mem_nil _))
    refine .bind (varDecl_yields (by rw [hvar]; decide)) fun v _ hv ↦ .bind (ih _) fun vs _ hvs ↦
      .pure ?_
    rw [List.map_cons, List.forall_mem_cons]
    exact ⟨hv, hvs⟩

section Statements

variable {expr : Parse Expr} (hexpr : ∀ c, expr.Yields S c (Expr.PlacedIn S))
  {stmt : Parse Stmt} (hstmt : ∀ c, stmt.Yields S c fun s ↦ ∀ x ∈ s.places, S x)
  {block : Parse Block} (hblock : ∀ c, block.Yields S c fun b ↦ ∀ x ∈ b.places, S x)

include hstmt in
/-- Statements in a row. -/
theorem stmts_yields (n : Nat) : ∀ c,
    (stmts stmt n).Yields S c fun ss ↦ ∀ x ∈ Stmt.placesAll ss, S x := by
  induction n with
  | zero => exact fun _ ↦ .throw _
  | succ n ih =>
    intro c
    refine .peek_kind (.ite (fun _ ↦ .pure (List.forall_mem_nil _)) fun _ ↦ ?_)
    refine .bind (hstmt _) fun s _ hs ↦ .bind (ih _) fun ss _ hss ↦ .pure ?_
    rw [Stmt.placesAll, List.forall_mem_append]
    exact ⟨hs, hss⟩

include hstmt in
theorem blockOf_yields (n : Nat) (c : Cursor) :
    (blockOf stmt n).Yields S c fun b ↦ ∀ x ∈ b.places, S x := by
  refine .bind (.expectDetailed (by decide) _) fun _ _ _ ↦ .bind (locals_yields n _)
    fun vars _ hvars ↦ .bind (stmts_yields hstmt n _) fun body _ hbody ↦
    .bind (.expectDetailed (by decide) _) fun _ _ _ ↦ .pure ?_
  rw [Block.places, List.forall_mem_append]
  exact ⟨hvars, hbody⟩

include hexpr hblock in
/-- An `if` has the place of its word.  The block of an `else` with another `if` is made up by the
parser, and it stands at that `if`. -/
theorem cond_yields (n : Nat) : ∀ {c : Cursor}, c.kind ≠ .endOfText →
    (cond expr block n).Yields S c fun s ↦ ∀ x ∈ s.places, S x := by
  induction n with
  | zero => exact fun _ ↦ .throw _
  | succ n ih =>
    intro c hc
    refine .bind (.advance hc) fun t _ ht ↦ .bind (hexpr _) fun e _ he ↦ .bind (hblock _)
      fun a _ ha ↦ ?_
    have hcond : ∀ {b : Block}, (∀ x ∈ b.places, S x) →
        ∀ x ∈ (Stmt.cond t.start e a b).places, S x := by
      intro b hb
      rw [Stmt.places, List.forall_mem_cons, List.forall_mem_append, List.forall_mem_append]
      exact ⟨ht, he.places, ha, hb⟩
    refine .peek_kind (.ite (fun helse ↦ ?_) fun _ ↦
      .peek_position (.pure (hcond (List.forall_mem_nil _))))
    refine .bind (.advance (by rw [helse]; decide)) fun _ _ _ ↦ .peek_kind (.ite (fun hif ↦ ?_)
      fun _ ↦ .bind (hblock _) fun b _ hb ↦ .pure (hcond hb))
    refine .peek_position (.bind (ih (by rw [hif]; decide)) fun s _ hs ↦ .pure (hcond ?_))
    rw [Block.places, List.map_nil, List.nil_append, Stmt.placesAll_eq_flatMap,
      List.flatMap_singleton]
    exact hs

include hexpr in
theorem optional_yields (stop : Kind) (c : Cursor) :
    (optional expr stop).Yields S c fun e ↦ ∀ x ∈ e.places, S x :=
  .peek_current (.ite (fun _ ↦ .pure (List.forall_mem_nil _)) fun _ hc a d ha ↦
    (hexpr c hc a d ha).imp_right Expr.PlacedIn.places)

include hexpr hstmt in
theorem stmtRule_yields (n : Nat) (rule : StmtRule) {c : Cursor} (hc : c.kind ≠ .endOfText) :
    (stmtRule expr stmt n rule).Yields S c fun s ↦ ∀ x ∈ s.places, S x := by
  have hblock := blockOf_yields hstmt n
  have hoptional := optional_yields hexpr
  cases rule with
  | any => exact hstmt c
  | block => exact .bind (hblock c) fun b _ hb ↦ .pure hb
  | cond => exact cond_yields hexpr hblock n hc
  | whileLoop =>
    refine .bind (.advance hc) fun _ _ ht ↦ .bind (hexpr _) fun e _ he ↦ .bind (hblock _)
      fun b _ hb ↦ .pure ?_
    rw [Stmt.places, List.forall_mem_cons, List.forall_mem_append]
    exact ⟨ht, he.places, hb⟩
  | forLoop =>
    refine .bind (.advance hc) fun _ _ ht ↦ .bind (hoptional _ _) fun i _ hi ↦
      .bind (.expect (by decide)) fun _ _ _ ↦ .bind (hoptional _ _) fun e _ he ↦
      .bind (.expect (by decide)) fun _ _ _ ↦ .bind (hoptional _ _) fun s _ hs ↦
      .bind (hblock _) fun b _ hb ↦ .pure ?_
    rw [Stmt.places, List.forall_mem_cons, List.forall_mem_append, List.forall_mem_append,
      List.forall_mem_append]
    exact ⟨ht, hi, he, hs, hb⟩
  | ret =>
    refine .bind (.advance hc) fun _ _ ht ↦ .bind (hoptional _ _) fun e _ he ↦
      .bind (.expect (by decide)) fun _ _ _ ↦ .pure ?_
    rw [Stmt.places, List.forall_mem_cons]
    exact ⟨ht, he⟩
  | jump j =>
    refine .bind (.advance hc) fun _ _ ht ↦ .bind (.expect (by decide)) fun _ _ _ ↦ .pure ?_
    rw [Stmt.places, List.forall_mem_singleton]
    exact ht

end Statements

/-- A statement has its places from the tokens it is read from.  What no rule opens is an
expression, with a semicolon behind it. -/
theorem stmtWithin_yields (n : Nat) : ∀ c,
    (stmtWithin .standard n).Yields S c fun s ↦ ∀ x ∈ s.places, S x := by
  induction n with
  | zero => exact fun _ ↦ .throw _
  | succ n ih =>
    intro c
    have hexpr := exprWithin_yields (S := S) (n + 1) .lowest
    refine .peek_kind ?_
    cases hrule : Table.standard.stmt c.kind with
    | none =>
      refine .ite (fun _ ↦ .unexpected _) fun _ ↦ ?_
      exact .bind (hexpr c) fun e _ he ↦ .bind (.expect (by decide)) fun _ _ _ ↦ .pure he.places
    | some rule =>
      refine stmtRule_yields hexpr ih (n + 1) rule fun heof ↦ ?_
      rw [heof] at hrule
      cases hrule

/-! ### Declarations

Parameters and functions have the places of the tokens that they start with. -/

theorem params_yields (n : Nat) : ∀ c,
    (params n).Yields S c fun vs ↦ ∀ x ∈ vs.map VarDecl.position, S x := by
  induction n with
  | zero => exact fun _ ↦ .throw _
  | succ n ih =>
    intro c
    refine .bind (.expectDetailed (by decide) _) fun name _ hname ↦
      .bind (.expectDetailed (by decide) _) fun _ _ _ ↦ .peek_kind (.ite (fun hcomma ↦ ?_)
      fun _ ↦ .pure (List.forall_mem_singleton.2 hname))
    refine .bind (.advance (by rw [hcomma]; decide)) fun _ _ _ ↦ .bind (ih _) fun vs _ hvs ↦
      .pure ?_
    rw [List.map_cons, List.forall_mem_cons]
    exact ⟨hname, hvs⟩

/-- A function has the place of the word `func`. -/
theorem fnDeclWithin_yields (n : Nat) {c : Cursor} (hc : c.kind ≠ .endOfText) :
    (fnDeclWithin .standard n).Yields S c fun f ↦ ∀ x ∈ f.places, S x := by
  refine .bind (.advance hc) fun t _ ht ↦ .bind (.expectDetailed (by decide) _) fun name _ _ ↦
    .bind (.expect (by decide)) fun _ d _ ↦ .peek_kind ?_
  have hrest : ∀ vars d, (∀ x ∈ vars.map VarDecl.position, S x) → (do
      let _ ← expect .closeParen
      let type ← expectDetailed .identifier "expected return type"
      let body ← blockWithin .standard n
      return (⟨name.value, vars, type.value, body, t.start⟩ : FnDecl)).Yields S d
        fun f ↦ ∀ x ∈ f.places, S x := by
    intro vars d hvars
    refine .bind (.expect (by decide)) fun _ _ _ ↦ .bind (.expectDetailed (by decide) _)
      fun _ _ _ ↦ .bind (blockOf_yields (stmtWithin_yields n) n _) fun body _ hbody ↦ .pure ?_
    rw [FnDecl.places, List.forall_mem_cons, List.forall_mem_append]
    exact ⟨ht, hvars, hbody⟩
  exact .ite (fun _ ↦ .bind (.pure (List.forall_mem_nil _)) hrest) fun _ ↦
    .bind (params_yields n d) hrest

theorem declWithin_yields (n : Nat) (c : Cursor) :
    (declWithin .standard n).Yields S c fun d ↦ ∀ x ∈ d.places, S x := by
  have hread := declWithin_apply n c
  by_cases hvar : c.kind = .varWord
  · rw [if_pos hvar] at hread
    exact .of_eq hread (.bind (varDecl_yields (by rw [hvar]; decide)) fun v _ hv ↦
      .pure (List.forall_mem_singleton.2 hv))
  rw [if_neg hvar] at hread
  by_cases hfunc : c.kind = .funcWord
  · rw [if_pos hfunc] at hread
    exact .of_eq hread (.bind (fnDeclWithin_yields n (by rw [hfunc]; decide)) fun f _ hf ↦
      .pure hf)
  · rw [if_neg hfunc] at hread
    exact .of_eq hread (.unexpected _)

/-- And so have the declarations of a text.  They are over at the end of the text, whose place is
not used. -/
theorem declsWithin_yields (n : Nat) : ∀ c,
    (declsWithin .standard n).Yields S c fun ds ↦ ∀ x ∈ ds.flatMap Decl.places, S x := by
  induction n with
  | zero => exact fun _ ↦ .throw _
  | succ n ih =>
    intro c
    refine .peek rfl (.ite (fun _ ↦ ?_) fun _ ↦ .pure (List.forall_mem_nil _))
    refine .bind (declWithin_yields n c) fun d _ hd ↦ .bind (ih _) fun ds _ hds ↦ .pure ?_
    rw [List.flatMap_cons, List.forall_mem_append]
    exact ⟨hd, hds⟩

end Grammar

/-- **The places of a program are those of tokens**, and not of the end of the text. -/
theorem Program.places_ofTokens {ts : List Token} {p : Program} (h : ofTokens ts = .ok p) :
    ∀ x ∈ p.places, ∃ t ∈ ts, t.kind ≠ .endOfText ∧ t.start = x := by
  cases ts with
  | nil => cases h
  | cons t us =>
    obtain ⟨d, hd⟩ := (ofTokens_eq_ok rfl).1 h
    have hmarked : Cursor.Marked (fun x ↦ ∃ u ∈ t :: us, u.kind ≠ .endOfText ∧ u.start = x)
        ⟨t, us, 0⟩ := fun u hu hkind ↦ ⟨u, hu, hkind, rfl⟩
    exact (Grammar.declsWithin_yields _ _ hmarked p.decls d (Grammar.program_eq_ok.1 hd)).2

/-! ## Lines

The text before a token is divided where the line of the token starts.  The number of the line of
the token is one more than the number of line ends before it, and this is how the line is looked up
again. -/

namespace Text

/-- A text is divided where its last line starts. -/
theorem exists_lineStart (done : List Char) : ∃ before front, done = before ++ front ∧
    (before = [] ∨ before.getLast? = some '\n') ∧ '\n' ∉ front := by
  induction done using List.reverseRecOn with
  | nil => exact ⟨[], [], rfl, .inl rfl, List.not_mem_nil⟩
  | append_singleton cs c ih =>
    by_cases hc : c = '\n'
    · refine ⟨cs ++ [c], [], (List.append_nil _).symm, .inr ?_, List.not_mem_nil⟩
      rw [List.getLast?_concat, hc]
    · obtain ⟨before, front, rfl, hbefore, hfront⟩ := ih
      refine ⟨before, front ++ [c], List.append_assoc _ _ _, hbefore, ?_⟩
      rw [List.mem_append, List.mem_singleton]
      rintro (h | h)
      · exact hfront h
      · exact hc h.symm

/-- A line starts in the first column. -/
theorem column_after_lineStart {before : List Char}
    (h : before = [] ∨ before.getLast? = some '\n') :
    (Position.origin.after before).column = 1 := by
  rcases h with rfl | h
  · rfl
  · obtain ⟨cs, rfl⟩ := List.getLast?_eq_some_iff.1 h
    rw [Position.after_append, Position.after_cons, Position.step, if_pos rfl]
    rfl

/-- The line that is looked up by the number of the line where `front` stands. -/
theorem rawLine?_after {before front : List Char}
    (hbefore : before = [] ∨ before.getLast? = some '\n') (hfront : '\n' ∉ front)
    (rest : List Char) :
    rawLine? (Position.origin.after (before ++ front)).line (before ++ (front ++ rest))
      = some (front ++ rest.takeWhile (· ≠ '\n')) := by
  obtain ⟨l, k, hposition, hraw⟩ := exists_rawLine? before (front ++ rest)
  have hcolumn := column_after_lineStart hbefore
  rw [hposition, Nat.add_eq_right, List.length_eq_zero_iff] at hcolumn
  have hpos : ∀ c ∈ front, decide (c ≠ '\n') = true := fun c hc ↦
    decide_eq_true fun heq ↦ hfront (heq ▸ hc)
  rw [Position.after_append, Position.after_of_not_mem hfront, hposition]
  rw [hcolumn, List.nil_append, List.takeWhile_append_of_pos hpos] at hraw
  exact hraw

end Text

/-- The token stands in the line `line` of the source: the text `front` is before it in this line,
and its own text `lexeme` starts at its place. -/
inductive Token.StandsIn (source : String) (t : Token) : List Char → Prop
  | mk {before front lexeme after : List Char}
      (hsource : source.toList = before ++ (front ++ (lexeme ++ after)))
      (hbefore : before = [] ∨ before.getLast? = some '\n') (hfront : '\n' ∉ front)
      (hne : lexeme ≠ []) (hlexeme : Pattern.Lexeme Pattern.Denotes lexeme t.kind t.value)
      (hstart : t.start = Position.origin.after (before ++ front)) :
      StandsIn source t (front ++ (lexeme ++ after).takeWhile (· ≠ '\n'))

namespace Token

/-- A token that is not the end of the text stands in a line of the source. -/
theorem exists_standsIn {source : String} {ts : List Token} (hts : scan source = .ok ts) {t : Token}
    (ht : t ∈ ts) (hkind : t.kind ≠ .endOfText) : ∃ line, t.StandsIn source line := by
  have htiles : Tiles [] source.toList ts := tiles_scanFrom hts
  rcases htiles.exists_of_mem ht with rfl | ⟨done, c, l, r, hsource, hlexeme, hstart⟩
  · exact absurd rfl hkind
  · obtain ⟨before, front, rfl, hbefore, hfront⟩ := Text.exists_lineStart done
    rw [List.nil_append, List.append_assoc] at hsource
    exact ⟨_, .mk hsource hbefore hfront (List.cons_ne_nil c l) hlexeme hstart⟩

/-- The line where a token stands is the one that is looked up for it. -/
theorem StandsIn.line?_eq {source : String} {t : Token} {line : List Char}
    (h : t.StandsIn source line) : Text.line? source t.start.line
      = some (String.ofList (Text.trimRight (· = '\r') line)) := by
  cases h with
  | mk hsource hbefore hfront _ _ hstart =>
    rw [Text.line?, hsource, hstart, Text.rawLine?_after hbefore hfront, Option.map_some]

end Token

/-! ## Diagnostics

Places of tokens, lines of tokens and diagnostics at places, put together. -/

namespace Diagnostic

/-- The diagnostic has the place of a token that is not the end of the text, and the line that is
looked up for it is the line of the source where this token stands. -/
def PointsInto (d : Diagnostic) (source : String) (ts : List Token) : Prop :=
  ∃ t ∈ ts, t.kind ≠ .endOfText ∧ d.position = some t.start ∧
    ∃ line, t.StandsIn source line ∧ Text.line? source t.start.line
      = some (String.ofList (Text.trimRight (· = '\r') line))

/-- A place of a token is a place in the source, in the line that an excerpt shows. -/
theorem pointsInto_of_locatedIn {source : String} {ts : List Token} {ds : List Diagnostic}
    (hts : Token.scan source = .ok ts)
    (hds : LocatedIn (fun x ↦ ∃ t ∈ ts, t.kind ≠ .endOfText ∧ t.start = x) ds) :
    ∀ d ∈ ds, d.PointsInto source ts := by
  intro d hd
  obtain ⟨-, hposition, t, ht, hkind, rfl⟩ := hds d hd
  obtain ⟨line, hline⟩ := Token.exists_standsIn hts ht hkind
  exact ⟨t, ht, hkind, hposition, line, hline, hline.line?_eq⟩

/-- Diagnostics with places are not among those without. -/
theorem filter_isNone_of_locatedIn {ds : List Diagnostic} (h : LocatedIn S ds) :
    ds.filter (·.position.isNone) = [] := by
  rw [List.filter_eq_nil_iff]
  intro d hd hnone
  obtain ⟨x, hx, -⟩ := h d hd
  rw [hx] at hnone
  cases hnone

end Diagnostic

namespace Program

/-- The only diagnostic without a place is that of the entry function. -/
theorem eq_of_mem_entryMissing {p : Program} {entry : String} {d : Diagnostic}
    (h : d ∈ p.entryMissing entry) : d = ⟨.missingEntry entry, none⟩ := by
  unfold entryMissing at h
  split at h
  · exact List.mem_singleton.1 h
  · cases h

/-- **Diagnostics point into the source.**  The check of a program that was read from a source
always comes to an end.  If there is no installed function with the name of the entry, this is
reported once and without a place, and nothing else is reported without one.  Any other diagnostic
has the place of a token of the source that is not the end of the text, and the line that is looked
up for it is the line where this token stands. -/
theorem diagnostics_in_source {source : String} {ts : List Token} {p : Program}
    (hts : Token.scan source = .ok ts) (hp : ofTokens ts = .ok p) (entry : String) :
    ∃ q c, p.check entry = .ok (q, c) ∧
      (c.diagnostics.filter (·.position.isNone)
        = if ∀ f ∈ p.installed c.registry, f.name ≠ entry then [⟨.missingEntry entry, none⟩]
          else []) ∧
      ∀ d ∈ c.diagnostics, d = ⟨.missingEntry entry, none⟩ ∨ d.PointsInto source ts := by
  refine ⟨p.annotate, p.checked entry, p.check_eq entry, ?_⟩
  obtain ⟨ds, es, hdiagnostics, hds, hes⟩ := p.diagnostics_located entry (places_ofTokens hp)
  rw [diagnostics_checked, hdiagnostics]
  constructor
  · rw [List.filter_append, List.filter_append, Diagnostic.filter_isNone_of_locatedIn hds,
      Diagnostic.filter_isNone_of_locatedIn hes, List.nil_append, List.append_nil]
    exact List.filter_eq_self.2 fun d hd ↦ eq_of_mem_entryMissing hd ▸ rfl
  · intro d hd
    rcases List.mem_append.1 hd with hd | hd
    · exact .inr (Diagnostic.pointsInto_of_locatedIn hts hds d hd)
    · rcases List.mem_append.1 hd with hd | hd
      · exact .inl (eq_of_mem_entryMissing hd)
      · exact .inr (Diagnostic.pointsInto_of_locatedIn hts hes d hd)

/-- A source with a function that returns what it should not. -/
def mistyped : String := "var Int n;\n  func f() Int \x7b return true; \x7d\r"

/-- The tokens of `Program.mistyped`. -/
def mistypedTokens : List Token :=
  [⟨.varWord, "var", ⟨1, 1⟩, ⟨1, 4⟩⟩, ⟨.identifier, "Int", ⟨1, 5⟩, ⟨1, 8⟩⟩,
    ⟨.identifier, "n", ⟨1, 9⟩, ⟨1, 10⟩⟩, ⟨.semicolon, ";", ⟨1, 10⟩, ⟨1, 11⟩⟩,
    ⟨.funcWord, "func", ⟨2, 3⟩, ⟨2, 7⟩⟩, ⟨.identifier, "f", ⟨2, 8⟩, ⟨2, 9⟩⟩,
    ⟨.openParen, "(", ⟨2, 9⟩, ⟨2, 10⟩⟩, ⟨.closeParen, ")", ⟨2, 10⟩, ⟨2, 11⟩⟩,
    ⟨.identifier, "Int", ⟨2, 12⟩, ⟨2, 15⟩⟩, ⟨.openCurly, "\x7b", ⟨2, 16⟩, ⟨2, 17⟩⟩,
    ⟨.returnWord, "return", ⟨2, 18⟩, ⟨2, 24⟩⟩, ⟨.trueWord, "true", ⟨2, 25⟩, ⟨2, 29⟩⟩,
    ⟨.semicolon, ";", ⟨2, 29⟩, ⟨2, 30⟩⟩, ⟨.closeCurly, "\x7d", ⟨2, 31⟩, ⟨2, 32⟩⟩,
    Token.endAt ⟨2, 33⟩]

/-- The program of `Program.mistyped`. -/
def mistypedProgram : Program :=
  ⟨[.global ⟨"n", "Int", ⟨1, 1⟩⟩, .function ⟨"f", [], "Int",
    ⟨⟨2, 16⟩, [], [.ret ⟨2, 18⟩ (.bool { position := ⟨2, 25⟩ } true)]⟩, ⟨2, 3⟩⟩]⟩

/-- The entry is missing, and the result is reported at the `return` in the second line. -/
theorem diagnostics_in_mistyped : Token.scan mistyped = .ok mistypedTokens ∧
    ofTokens mistypedTokens = .ok mistypedProgram ∧
    ∃ q c, mistypedProgram.check "main" = .ok (q, c) ∧
      c.diagnostics.filter (·.position.isNone) = [⟨.missingEntry "main", none⟩] ∧
      ∃ d ∈ c.diagnostics, d.position = some ⟨2, 18⟩ ∧ d.PointsInto mistyped mistypedTokens := by
  have hscan : Token.scan mistyped = .ok mistypedTokens := by decide +kernel
  have hread : ofTokens mistypedTokens = .ok mistypedProgram := rfl
  have hdiagnostics : (mistypedProgram.check "main").map (·.2.diagnostics)
      = .ok [⟨.missingEntry "main", none⟩, .located (.returnMismatch "f" .int .bool) ⟨2, 18⟩] := rfl
  obtain ⟨q, c, hcheck, -, hpoints⟩ := diagnostics_in_source hscan hread "main"
  rw [hcheck] at hdiagnostics
  have hc : c.diagnostics = _ := Except.ok.inj hdiagnostics
  refine ⟨hscan, hread, q, c, hcheck, by rw [hc]; rfl, ?_⟩
  have hmem : Diagnostic.located (.returnMismatch "f" .int .bool) ⟨2, 18⟩ ∈ c.diagnostics := by
    rw [hc]
    exact List.mem_cons_of_mem _ List.mem_cons_self
  exact ⟨_, hmem, rfl, (hpoints _ hmem).resolve_left nofun⟩

end Program

end Typewright
