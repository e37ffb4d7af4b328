import Typewright.Proofs.Isolation

/-!
# Jumps and the loops around them

A check counts the loops around the current statement.  The count goes up before the body of a loop
and down after it, and the check of a function starts it at zero and puts the old one back.  A jump
is reported if the count is zero.

Here the same is said by the text alone.  `Stmt.occurrences` lists the statements inside a statement
in their order, each with the statements around it.  A jump is stray if none of these is a loop, and
`Program.check_reports_stray_jumps` says that the stray jumps of the installed functions are
reported, each once, and no others.  What carries the proof is that the count is the number of loops
among the statements around (`Stmt.about_jump_events`), whatever else is reported on the way.

The statement is about every program, so about bodies full of other errors as well.  Diagnostics of
other topics have to be told apart from those about jumps, and this is done by the topic of the
issue.  No rule but that of a jump can report one, which takes a single line for each kind of
statement.
-/

set_option autoImplicit false

namespace Typewright

open Diagnostic

/-! ## Statements and what is around them

Statements are not enough to say what is around them: two jumps that look alike, even at the same
place, can stand in different loops.  So an occurrence is a statement together with the statements
that it stands in. -/

/-- The statement is a loop. -/
def Stmt.isLoop : Stmt → Bool
  | .whileLoop .. | .forLoop .. => true
  | _ => false

mutual
/-- The statement and all statements inside it, in the order of the text.  Each comes with the
statements around it, the innermost first, where `around` are those around the statement itself. -/
def Stmt.occurrences (around : List Stmt) : Stmt → List (List Stmt × Stmt)
  | .block b => (around, .block b) :: b.occurrences (.block b :: around)
  | .cond p c a b =>
    (around, .cond p c a b) :: (a.occurrences (.cond p c a b :: around)
      ++ b.occurrences (.cond p c a b :: around))
  | .whileLoop p c b => (around, .whileLoop p c b) :: b.occurrences (.whileLoop p c b :: around)
  | .forLoop p i c s b =>
    (around, .forLoop p i c s b) :: b.occurrences (.forLoop p i c s b :: around)
  | .ret p e => [(around, .ret p e)]
  | .jump p j => [(around, .jump p j)]
  | .expr e => [(around, .expr e)]

/-- All statements inside a block. -/
def Block.occurrences (around : List Stmt) : Block → List (List Stmt × Stmt)
  | ⟨_, _, body⟩ => Stmt.occurrencesAll around body

/-- The statements and all statements inside them. -/
def Stmt.occurrencesAll (around : List Stmt) : List Stmt → List (List Stmt × Stmt)
  | [] => []
  | s :: ss => s.occurrences around ++ Stmt.occurrencesAll around ss
end

theorem Stmt.occurrencesAll_eq_flatMap (around : List Stmt) (ss : List Stmt) :
    occurrencesAll around ss = ss.flatMap (occurrences around) := by
  induction ss with
  | nil => rfl
  | cons s ss ih => rw [occurrencesAll, ih, List.flatMap_cons]

/-- The diagnostic of a jump that has no loop around it. -/
def Stmt.strayJump? : List Stmt × Stmt → Option Diagnostic
  | (around, .jump p j) =>
    if around.any isLoop then none else some (.located (.outsideLoop j.word) p)
  | _ => none

/-! ## What is reported about jumps

The induction is over statements and blocks, for all sites and all statements around at once.  The
invariant ties the two together: the count of the site is the number of loops around. -/

/-- The rule of a jump goes by a count of loops, and the text by the statements around. -/
theorem Stmt.strayJump?_jump (around : List Stmt) (p : Position) (j : Jump) :
    strayJump? (around, .jump p j)
      = (Rule.jumpIssue? (around.countP isLoop) j).map (.located · p) := by
  rw [strayJump?, Rule.jumpIssue?]
  by_cases hloop : around.any isLoop
  · have hcount : around.countP isLoop ≠ 0 :=
      Nat.ne_of_gt (List.countP_pos_iff.2 (List.any_eq_true.1 hloop))
    rw [if_pos hloop, if_neg hcount]
    rfl
  · have hcount : around.countP isLoop = 0 := by
      rw [List.countP_eq_zero]
      exact fun s hs hs' ↦ hloop (List.any_eq_true.2 ⟨s, hs, hs'⟩)
    rw [if_neg hloop, if_pos hcount]
    rfl

namespace Expr

variable (e : Expr) (p : Position)

theorem about_jump_check (Γ : Context) : about .jump (e.check Γ).diagnostics = [] :=
  (e.topic_check Γ).about_eq_nil (by decide)

theorem about_jump_predicate (Γ : Context) (statement : String) :
    about .jump (Event.diagnostics (e.predicateEvents Γ statement p)) = [] :=
  (e.topic_predicate Γ statement p).about_eq_nil (by decide)

theorem about_jump_loopCondition (Γ : Context) :
    about .jump (Event.diagnostics (e.loopConditionEvents Γ p)) = [] :=
  (e.topic_loopCondition Γ p).about_eq_nil (by decide)

theorem about_jump_return (σ : Site) (ret : Option Ty) :
    about .jump (Event.diagnostics (e.returnEvents σ ret p)) = [] :=
  (e.topic_return σ ret p).about_eq_nil (by decide)

end Expr

/-- **The count of loops follows the text.**  Where it is the number of loops around a statement,
the jumps that are reported inside the statement are the stray ones, in order, and so for a
block. -/
theorem Stmt.about_jump_events (ret : Option Ty) :
    (∀ (s : Stmt) (σ : Site) (around : List Stmt), σ.loops = around.countP isLoop →
      about .jump (Event.diagnostics (s.events σ ret))
        = (s.occurrences around).filterMap strayJump?) ∧
    ∀ (b : Block) (σ : Site) (around : List Stmt), σ.loops = around.countP isLoop →
      about .jump (Event.diagnostics (b.events σ ret))
        = (b.occurrences around).filterMap strayJump? := by
  refine Stmt.induct ?block ?cond ?whileLoop ?forLoop ?ret ?jump ?expr ?body
  case block =>
    intro b ih σ around h
    rw [diagnostics_block, occurrences, List.filterMap_cons_none rfl]
    exact ih σ (.block b :: around) h
  case cond =>
    intro p c a b iha ihb σ around h
    rw [diagnostics_cond, about_append, about_append, c.about_jump_predicate, occurrences,
      List.filterMap_cons_none rfl, List.filterMap_append, List.nil_append,
      iha (σ.push []) (.cond p c a b :: around) h, ihb (σ.push []) (.cond p c a b :: around) h]
  case whileLoop =>
    intro p c b ih σ around h
    -- the count goes up with the loop that is now around
    have hloops : σ.inLoop.loops = (.whileLoop p c b :: around).countP isLoop := by
      rw [List.countP_cons_of_pos rfl, ← h]
      rfl
    rw [diagnostics_whileLoop, about_append, c.about_jump_predicate, occurrences,
      List.filterMap_cons_none rfl, List.nil_append, ih σ.inLoop _ hloops]
  case forLoop =>
    intro p i c s b ih σ around h
    have hloops : σ.inLoop.loops = (.forLoop p i c s b :: around).countP isLoop := by
      rw [List.countP_cons_of_pos rfl, ← h]
      rfl
    rw [diagnostics_forLoop, about_append, about_append, about_append, i.about_jump_check,
      c.about_jump_loopCondition, s.about_jump_check, occurrences, List.filterMap_cons_none rfl,
      List.nil_append, List.nil_append, List.nil_append, ih σ.inLoop _ hloops]
  case ret =>
    intro p e σ around h
    rw [diagnostics_ret, e.about_jump_return]
    rfl
  case jump =>
    intro p j σ around h
    rw [diagnostics_jump, (Rule.topic_jumpIssue? σ.loops j p).about_eq_self, h, occurrences,
      List.filterMap_eq_flatMap_toList, List.flatMap_singleton, strayJump?_jump, Option.toList_map]
  case expr =>
    intro e σ around h
    rw [diagnostics_expr, e.about_jump_check]
    rfl
  case body =>
    intro p vars ss ih σ around h
    have hlocals : about .jump (Event.diagnostics (Scope.localEvents [] vars)) = [] :=
      (Scope.loop_locals.topic_events vars []).about_eq_nil (by decide)
    rw [Block.diagnostics_mk, about_append, hlocals, List.nil_append, about_flatMap,
      Block.occurrences, occurrencesAll_eq_flatMap, List.filterMap_flatMap]
    exact List.flatMap_congr fun s hs ↦ ih s hs (σ.push (Scope.declareAll [] vars)) around h

/-- The check of a function starts outside of all loops. -/
theorem FnDecl.about_jump_events (σ : Site) (f : FnDecl) :
    about .jump (Event.diagnostics (f.events σ))
      = (f.body.occurrences []).filterMap Stmt.strayJump? := by
  have hresult : about .jump ((Rule.resultIssue? f.name f.returnType).toList.map
      (.located · f.position)) = [] :=
    (Rule.topic_resultIssue? _ _ _).about_eq_nil (by decide)
  have hparams : about .jump (Event.diagnostics (Scope.paramEvents f.name [] f.params)) = [] :=
    ((Scope.loop_params f.name).topic_events f.params []).about_eq_nil (by decide)
  rw [diagnostics_events, about_append, about_append, hresult, hparams, List.nil_append,
    List.nil_append]
  -- nothing is around the body, and the count is zero there whatever it was before
  exact (Stmt.about_jump_events _).2 f.body _ [] rfl

/-- **The jumps that are reported are exactly those without a loop around them.**  In the check of
any program, every jump in the body of an installed function that has no loop among the statements
around it is reported once, at its position and by its word, in the order of the text.  No other
jump is, whatever else is wrong around it. -/
theorem Program.check_reports_stray_jumps (p : Program) (entry : String) :
    ∃ q c, p.check entry = .ok (q, c) ∧ about .jump c.diagnostics
      = ((p.installed c.registry).flatMap fun f ↦ f.body.occurrences []).filterMap
        Stmt.strayJump? := by
  refine ⟨p.annotate, p.checked entry, p.check_eq entry, ?_⟩
  have hinstall := (Registry.topic_installEvents p.decls .empty 0).about_eq_nil
    (t := .jump) (by decide)
  have hentry := (p.registry.topic_entryEvents entry).about_eq_nil (t := .jump) (by decide)
  have hglobals := (Scope.loop_globals.topic_events p.globals []).about_eq_nil
    (t := .jump) (by decide)
  have hregistry : (p.checked entry).registry = p.registry := rfl
  rw [diagnostics_checked, about_diagnostics, hinstall, hentry, hglobals, hregistry,
    List.nil_append, List.nil_append, List.nil_append, List.filterMap_flatMap]
  exact List.flatMap_congr fun f _ ↦ f.about_jump_events p.site

/-- In `{ while true { { break; } } continue; }` the jump outside of the loop is stray. -/
example : (Block.occurrences [] ⟨⟨1, 1⟩, [], [.whileLoop ⟨1, 3⟩ (.bool ⟨⟨1, 9⟩, none⟩ true)
    ⟨⟨1, 14⟩, [], [.block ⟨⟨1, 16⟩, [], [.jump ⟨1, 18⟩ .leave]⟩]⟩,
      .jump ⟨1, 29⟩ .next]⟩).filterMap Stmt.strayJump?
    = [.located (.outsideLoop "continue") ⟨1, 29⟩] := rfl

end Typewright
