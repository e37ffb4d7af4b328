import Typewright.Proofs.Decision
import Typewright.Proofs.ProgramParsing
import Typewright.Proofs.Tiling

/-!
# Declarations stand at different places

Every declaration of a program has the place of a token that was read for it, and the tokens of a
text start at different places.  So the declarations of a program that was read from a text stand at
different places: `Program.nodup_declaredPlaces`.

`Parse.Marks before m c P` is how the rules of the grammar are followed.  The places of the tokens
ahead of `c` come after those in `before`, and the action `m` gives some of them away: those in `P
a` come first, and the tokens that are left come after them, in the order of the text.

That every place is the place of some token would not be enough here, since two declarations might
have taken theirs from the same one.  A token has to be used up, and `Sublist` counts: a place that
occurs twice in the list of the declarations has to occur twice among the tokens.  So the places of
the declarations are a sublist of those of the tokens (`Program.declaredPlaces_sublist`), and in a
text no place occurs twice there (`Tiles.pairwise_start`).
-/

set_option autoImplicit false

namespace Typewright

/-! ## The places of declarations

The variables of a function in the order of the text, and the places of all declarations of a
program. -/

mutual
/-- The local variables of all blocks in the statement, in order. -/
def Stmt.varDecls : Stmt → List VarDecl
  | .block b => b.varDecls
  | .cond _ _ a b => a.varDecls ++ b.varDecls
  | .whileLoop _ _ b => b.varDecls
  | .forLoop _ _ _ _ b => b.varDecls
  | .ret _ _ | .jump _ _ | .expr _ => []

/-- The local variables of the block and of all blocks in it, in order. -/
def Block.varDecls : Block → List VarDecl
  | ⟨_, vars, body⟩ => vars ++ Stmt.varDeclsAll body

/-- The local variables of all blocks in the statements, in order. -/
def Stmt.varDeclsAll : List Stmt → List VarDecl
  | [] => []
  | s :: ss => s.varDecls ++ Stmt.varDeclsAll ss
end

theorem Stmt.varDeclsAll_eq_flatMap (ss : List Stmt) :
    varDeclsAll ss = ss.flatMap varDecls := by
  induction ss with
  | nil => rfl
  | cons s ss ih => rw [varDeclsAll, ih, List.flatMap_cons]

/-- The parameters of the function and the local variables of all blocks in it, in order. -/
def FnDecl.varDecls (f : FnDecl) : List VarDecl := f.params ++ f.body.varDecls

/-- The places of the declaration and of the declarations in it. -/
def Decl.declaredPlaces : Decl → List Position
  | .function f => f.position :: f.varDecls.map VarDecl.position
  | .global v => [v.position]

/-- The places of the declarations of a program, in order. -/
def Program.declaredPlaces (p : Program) : List Position := p.decls.flatMap Decl.declaredPlaces

/-! ## Giving away the places of tokens

`before` is a stock of places that have been passed and may still be used.  An action adds the
places of the tokens that it reads to it, and what it gives uses some of them.  Unused places can be
dropped at any time, because a sublist of a sublist is one. -/

/-- The places of the tokens from the current one on. -/
def Cursor.starts (c : Cursor) : List Position := c.ahead.map Token.start

namespace Cursor

theorem starts_of_reads {c d : Cursor} {ts : List Token} (h : c.Reads ts d) :
    c.starts = ts.map Token.start ++ d.starts := by
  rw [starts, h.ahead, List.map_append, starts]

theorem Closed.starts_next {c : Cursor} (hc : c.Closed) (hkind : c.kind ≠ .endOfText) :
    c.starts = c.current.start :: c.next.starts :=
  starts_of_reads (hc.reads_next hkind)

end Cursor

namespace Parse

variable {α β : Type}

/-- From `c`, if the action does not stop and gives `a`, the places in `P a` and then those of the
tokens that are left come in this order among the places in `before` and of the tokens ahead. -/
def Marks (before : List Position) (m : Parse α) (c : Cursor) (P : α → List Position) : Prop :=
  c.Closed → ∀ a d, m c = .ok a d → d.Closed ∧ (P a ++ d.starts).Sublist (before ++ c.starts)

namespace Marks

variable {before : List Position} {m : Parse α} {f : α → Parse β} {c : Cursor}
  {P Q : α → List Position} {R : β → List Position}

theorem of_eq {m' : Parse α} (h : m c = m' c) (hm' : m'.Marks before c P) :
    m.Marks before c P := by
  intro hc a d ha
  exact hm' hc a d (h ▸ ha)

/-- Places that are not used can be dropped.  A sublist of a sublist is one, and that is all the
order of places needs. -/
theorem mono (hm : m.Marks before c P) (hPQ : ∀ a, (Q a).Sublist (P a)) :
    m.Marks before c Q := by
  intro hc a d ha
  obtain ⟨hd, hsub⟩ := hm hc a d ha
  exact ⟨hd, ((hPQ a).append_right _).trans hsub⟩

/-- What was given away before stays so.  The lemmas about rules are stated without anything before,
and a sequence puts what its first part gave away in front of the second. -/
theorem frame (hm : m.Marks [] c P) (before : List Position) :
    m.Marks before c fun a ↦ before ++ P a := by
  intro hc a d ha
  obtain ⟨hd, hsub⟩ := hm hc a d ha
  rw [List.append_assoc]
  exact ⟨hd, hsub.append_left before⟩

/-- No move is made, so the places have to be among those that were given away before. -/
theorem pure {a : α} (ha : (P a).Sublist before) : (Pure.pure a : Parse α).Marks before c P := by
  intro hc b d h
  obtain ⟨rfl, rfl⟩ := pure_eq_ok.1 h
  exact ⟨hc, ha.append_right _⟩

theorem throw (s : Stop) : (throw s : Parse α).Marks before c P := fun _ _ _ h ↦
  (throw_eq_ok.1 h).elim

theorem unexpected (message : String) : (unexpected message : Parse α).Marks before c P :=
  fun _ _ _ h ↦ (unexpected_eq_ok.1 h).elim

/-- One action after the other: the places of the first come before those of the second, as its
tokens do. -/
theorem bind (hm : m.Marks before c P) (hf : ∀ a d, (f a).Marks (P a) d R) :
    (m >>= f).Marks before c R := by
  intro hc b e h
  obtain ⟨a, d, ha, hb⟩ := bind_eq_ok.1 h
  obtain ⟨hd, hsub⟩ := hm hc a d ha
  obtain ⟨he, hsub'⟩ := hf a d hd b e hb
  exact ⟨he, hsub'.trans hsub⟩

/-- An action that reads tokens and gives none of their places away. -/
theorem of_sound {R : List Token → α → Prop} (hm : Sound m R) :
    m.Marks before c fun _ ↦ before := by
  intro hc a d ha
  obtain ⟨ts, hts, -⟩ := hm hc ha
  rw [Cursor.starts_of_reads hts]
  exact ⟨hc.of_reads hts, (List.sublist_append_right _ _).append_left before⟩

theorem advance (hkind : c.kind ≠ .endOfText) :
    Parse.advance.Marks before c fun t ↦ before ++ [t.start] := by
  intro hc t d h
  cases h
  rw [hc.starts_next hkind, List.append_assoc]
  exact ⟨hc.next, .refl _⟩

theorem expect {k : Kind} (hk : k ≠ .endOfText) :
    (expect k).Marks before c fun t ↦ before ++ [t.start] := by
  intro hc t d h
  obtain ⟨hkind, rfl, rfl⟩ := expect_eq_ok.1 h
  exact advance (hkind ▸ hk) hc _ _ rfl

theorem expectDetailed {k : Kind} (hk : k ≠ .endOfText) (message : String) :
    (expectDetailed k message).Marks before c fun t ↦ before ++ [t.start] := by
  intro hc t d h
  obtain ⟨hkind, rfl, rfl⟩ := expectDetailed_eq_ok.1 h
  exact advance (hkind ▸ hk) hc _ _ rfl

/-- The place of a token that is read need not be given away. -/
theorem skip {m : Parse Token} (hm : m.Marks before c fun t ↦ before ++ [t.start]) :
    m.Marks before c fun _ ↦ before :=
  hm.mono fun _ ↦ List.sublist_append_left _ _

/-- Looking at the current token before going on. -/
theorem peek {a : α} (hm : m c = .ok a c) (hf : (f a).Marks before c R) :
    (m >>= f).Marks before c R :=
  of_eq (bind_of_ok hm f) hf

theorem ite {C : Prop} [Decidable C] {m' : Parse α} (hm : C → m.Marks before c P)
    (hm' : ¬ C → m'.Marks before c P) : (if C then m else m').Marks before c P := by
  by_cases hC : C
  · rw [if_pos hC]
    exact hm hC
  · rw [if_neg hC]
    exact hm' hC

end Marks

end Parse

/-! ## The rules of the grammar

As for the places of a tree, one lemma for each function of the grammar, by its text.  Expressions
declare nothing, so all that matters about them is that they read tokens (`Marks.of_sound`). -/

namespace Grammar

open Parse

/-! ### Blocks and statements

Expressions declare nothing.  They come into these lemmas as actions that read tokens and give no
place away (`hexpr`), and so do the tokens that only hold a statement together. -/

/-- A variable has the place of its first token. -/
theorem varDecl_marks {c : Cursor} (hc : c.kind ≠ .endOfText) :
    varDecl.Marks [] c fun v ↦ [v.position] :=
  .bind (.advance hc) fun _ _ ↦ .bind (.skip (.expectDetailed (by decide) _)) fun _ _ ↦
    .bind (.skip (.expectDetailed (by decide) _)) fun _ _ ↦ .bind (.skip (.expect (by decide)))
    fun _ _ ↦ .pure (.refl _)

theorem locals_marks (n : Nat) : ∀ c,
    (locals n).Marks [] c fun vs ↦ vs.map VarDecl.position := by
  induction n with
  | zero => exact fun _ ↦ .throw _
  | succ n ih =>
    intro c
    refine .peek (kind_apply c) (.ite (fun hvar ↦ ?_) fun _ ↦ .pure (.refl _))
    exact .bind (varDecl_marks (by rw [hvar]; decide)) fun v _ ↦
      .bind ((ih _).frame [v.position]) fun vs _ ↦ .pure (.refl _)

section Statements

variable {expr : Parse Expr} (hexpr : ∀ before c, expr.Marks before c fun _ ↦ before)
  {stmt : Parse Stmt} (hstmt : ∀ c, stmt.Marks [] c fun s ↦ s.varDecls.map VarDecl.position)
  {block : Parse Block} (hblock : ∀ c, block.Marks [] c fun b ↦ b.varDecls.map VarDecl.position)

include hstmt in
theorem stmts_marks (n : Nat) : ∀ c,
    (stmts stmt n).Marks [] c fun ss ↦ (Stmt.varDeclsAll ss).map VarDecl.position := by
  induction n with
  | zero => exact fun _ ↦ .throw _
  | succ n ih =>
    intro c
    refine .peek (kind_apply c) (.ite (fun _ ↦ .pure (.refl _)) fun _ ↦ ?_)
    refine .bind (hstmt _) fun s _ ↦ .bind ((ih _).frame _) fun ss _ ↦ .pure ?_
    rw [Stmt.varDeclsAll, List.map_append]

include hstmt in
theorem blockOf_marks (n : Nat) (c : Cursor) :
    (blockOf stmt n).Marks [] c fun b ↦ b.varDecls.map VarDecl.position := by
  refine .bind (.skip (.expectDetailed (by decide) _)) fun _ _ ↦ .bind (locals_marks n _)
    fun vars _ ↦ .bind ((stmts_marks hstmt n _).frame _) fun body _ ↦
    .bind (.skip (.expectDetailed (by decide) _)) fun _ _ ↦ .pure ?_
  rw [Block.varDecls, List.map_append]

include hexpr hblock in
/-- The variables of an `if` are those of its blocks, in order.  An `else` with another `if` has the
variables of that one. -/
theorem cond_marks (n : Nat) : ∀ {c : Cursor}, c.kind ≠ .endOfText →
    (cond expr block n).Marks [] c fun s ↦ s.varDecls.map VarDecl.position := by
  induction n with
  | zero => exact fun _ ↦ .throw _
  | succ n ih =>
    intro c hc
    refine .bind (.skip (.advance hc)) fun t _ ↦ .bind (hexpr _ _) fun e _ ↦ .bind (hblock _)
      fun a d ↦ .peek (kind_apply d) (.ite (fun helse ↦ ?_) fun _ ↦
        .peek (position_apply d) (.pure ?_))
    · refine .bind (.skip (.advance (by rw [helse]; decide))) fun _ d ↦ .peek (kind_apply d)
        (.ite (fun hif ↦ .peek (position_apply d) ?_) fun _ ↦ ?_)
      · refine .bind ((ih (by rw [hif]; decide)).frame _) fun s _ ↦ .pure ?_
        rw [Stmt.varDecls, List.map_append, Block.varDecls, Stmt.varDeclsAll_eq_flatMap,
          List.flatMap_singleton, List.nil_append]
      · refine .bind ((hblock _).frame _) fun b _ ↦ .pure ?_
        rw [Stmt.varDecls, List.map_append]
    · rw [Stmt.varDecls, List.map_append]
      exact (List.append_nil _).symm ▸ .refl _

include hexpr in
theorem optional_marks (stop : Kind) (before : List Position) (c : Cursor) :
    (optional expr stop).Marks before c fun _ ↦ before :=
  .peek (current_apply c) (.ite (fun _ ↦ .pure (.refl _)) fun _ ↦ hexpr before c)

include hexpr hstmt in
theorem stmtRule_marks (n : Nat) (rule : StmtRule) {c : Cursor} (hc : c.kind ≠ .endOfText) :
    (stmtRule expr stmt n rule).Marks [] c fun s ↦ s.varDecls.map VarDecl.position := by
  have hblock := blockOf_marks hstmt n
  have hoptional := optional_marks hexpr
  cases rule with
  | any => exact hstmt c
  | block => exact .bind (hblock c) fun b _ ↦ .pure (.refl _)
  | cond => exact cond_marks hexpr hblock n hc
  | whileLoop =>
    exact .bind (.skip (.advance hc)) fun _ _ ↦ .bind (hexpr _ _) fun _ _ ↦ .bind (hblock _)
      fun b _ ↦ .pure (.refl _)
  | forLoop =>
    exact .bind (.skip (.advance hc)) fun _ _ ↦ .bind (hoptional _ _ _) fun _ _ ↦
      .bind (.skip (.expect (by decide))) fun _ _ ↦ .bind (hoptional _ _ _) fun _ _ ↦
      .bind (.skip (.expect (by decide))) fun _ _ ↦ .bind (hoptional _ _ _) fun _ _ ↦
      .bind (hblock _) fun b _ ↦ .pure (.refl _)
  | ret =>
    exact .bind (.skip (.advance hc)) fun _ _ ↦ .bind (hoptional _ _ _) fun _ _ ↦
      .bind (.skip (.expect (by decide))) fun _ _ ↦ .pure (.refl _)
  | jump j =>
    exact .bind (.skip (.advance hc)) fun _ _ ↦ .bind (.skip (.expect (by decide))) fun _ _ ↦
      .pure (.refl _)

end Statements

/-- The variables of a statement have different places, in the order in which they stand in the
text. -/
theorem stmtWithin_marks (n : Nat) : ∀ c,
    (stmtWithin .standard n).Marks [] c fun s ↦ s.varDecls.map VarDecl.position := by
  induction n with
  | zero => exact fun _ ↦ .throw _
  | succ n ih =>
    intro c
    have hexpr : ∀ before c, (exprWithin .standard (n + 1) .lowest).Marks before c fun _ ↦ before :=
      fun _ _ ↦ .of_sound (exprWithin_lowest_sound (n + 1))
    refine .peek (kind_apply c) ?_
    cases hrule : Table.standard.stmt c.kind with
    | none =>
      refine .ite (fun _ ↦ .unexpected _) fun _ ↦ ?_
      exact .bind (hexpr _ c) fun e _ ↦ .bind (.skip (.expect (by decide))) fun _ _ ↦
        .pure (.refl _)
    | some rule =>
      refine stmtRule_marks hexpr ih (n + 1) rule fun heof ↦ ?_
      rw [heof] at hrule
      cases hrule

/-! ### Declarations

The place of a function comes before those of its parameters and of the variables of its body, as
its first token comes before theirs. -/

/-- Parameters have places of their own tokens, one after the other. -/
theorem params_marks (n : Nat) : ∀ c,
    (params n).Marks [] c fun vs ↦ vs.map VarDecl.position := by
  induction n with
  | zero => exact fun _ ↦ .throw _
  | succ n ih =>
    intro c
    refine .bind (.expectDetailed (by decide) _) fun name _ ↦
      .bind (.skip (.expectDetailed (by decide) _)) fun _ d ↦ .peek (kind_apply d)
        (.ite (fun hcomma ↦ ?_) fun _ ↦ .pure (.refl _))
    exact .bind (.skip (.advance (by rw [hcomma]; decide))) fun _ _ ↦
      .bind ((ih _).frame _) fun vs _ ↦ .pure (.refl _)

/-- A function has the place of its first token, which comes before those of its variables. -/
theorem fnDeclWithin_marks (n : Nat) {c : Cursor} (hc : c.kind ≠ .endOfText) :
    (fnDeclWithin .standard n).Marks [] c fun f ↦
      f.position :: f.varDecls.map VarDecl.position := by
  refine .bind (.advance hc) fun t _ ↦ .bind (.skip (.expectDetailed (by decide) _)) fun name _ ↦
    .bind (.skip (.expect (by decide))) fun _ d ↦ .peek (kind_apply d) ?_
  have hrest : ∀ vars d, (do
      let _ ← expect .closeParen
      let type ← expectDetailed .identifier "expected return type"
      let body ← blockWithin .standard n
      return (⟨name.value, vars, type.value, body, t.start⟩ : FnDecl)).Marks
        ([t.start] ++ vars.map VarDecl.position) d fun f ↦
          f.position :: f.varDecls.map VarDecl.position := by
    intro vars d
    refine .bind (.skip (.expect (by decide))) fun _ _ ↦
      .bind (.skip (.expectDetailed (by decide) _)) fun _ _ ↦
      .bind ((blockOf_marks (stmtWithin_marks n) n _).frame _) fun body _ ↦ .pure ?_
    rw [FnDecl.varDecls, List.map_append]
    exact .refl _
  exact .ite (fun _ ↦ .bind (.pure (.refl _)) hrest) fun _ ↦
    .bind ((params_marks n d).frame [t.start]) hrest

theorem declWithin_marks (n : Nat) (c : Cursor) :
    (declWithin .standard n).Marks [] c Decl.declaredPlaces := by
  have hread := declWithin_apply n c
  by_cases hvar : c.kind = .varWord
  · rw [if_pos hvar] at hread
    exact .of_eq hread (.bind (varDecl_marks (by rw [hvar]; decide)) fun v _ ↦ .pure (.refl _))
  rw [if_neg hvar] at hread
  by_cases hfunc : c.kind = .funcWord
  · rw [if_pos hfunc] at hread
    exact .of_eq hread (.bind (fnDeclWithin_marks n (by rw [hfunc]; decide)) fun f _ ↦
      .pure (.refl _))
  · rw [if_neg hfunc] at hread
    exact .of_eq hread (.unexpected _)

/-- All declarations of a text. -/
theorem declsWithin_marks (n : Nat) : ∀ c,
    (declsWithin .standard n).Marks [] c fun ds ↦ ds.flatMap Decl.declaredPlaces := by
  induction n with
  | zero => exact fun _ ↦ .throw _
  | succ n ih =>
    intro c
    refine .peek rfl (.ite (fun _ ↦ ?_) fun _ ↦ .pure (.refl _))
    exact .bind (declWithin_marks n c) fun d _ ↦ .bind ((ih _).frame _) fun ds _ ↦ .pure (.refl _)

end Grammar

/-- The places of declarations are those of tokens, in the order of the tokens.  That they are
different follows, since tokens start at different places. -/
theorem Program.declaredPlaces_sublist {ts : List Token} {p : Program} (hts : Syntax.Ends ts)
    (h : ofTokens ts = .ok p) : p.declaredPlaces.Sublist (ts.map Token.start) := by
  cases ts with
  | nil => cases h
  | cons t us =>
    obtain ⟨d, hd⟩ := (ofTokens_eq_ok rfl).1 h
    have hclosed : Cursor.Closed ⟨t, us, 0⟩ := Syntax.Ends.closed hts
    obtain ⟨-, hsub⟩ := Grammar.declsWithin_marks _ _ hclosed p.decls d (Grammar.program_eq_ok.1 hd)
    exact (List.sublist_append_left _ _).trans hsub

/-! ## The places of tokens

Places are ordered as the text is.  A token that is not empty starts before whatever comes after it,
and only the last one, the end of the text, is empty. -/

namespace Position

/-- A place comes before another one in the text. -/
def Before (p q : Position) : Prop := p.line < q.line ∨ p.line = q.line ∧ p.column < q.column

theorem Before.trans {p q r : Position} (h : p.Before q) (h' : q.Before r) : p.Before r := by
  unfold Before at *
  omega

theorem Before.ne {p q : Position} (h : p.Before q) : p ≠ q := by
  rintro rfl
  unfold Before at h
  omega

/-- A character leads to a later place. -/
theorem before_step (p : Position) (c : Char) : p.Before (p.step c) := by
  unfold Before step
  split <;> simp

/-- A text that is not empty leads to a later place. -/
theorem before_after (p : Position) {cs : List Char} (h : cs ≠ []) : p.Before (p.after cs) := by
  induction cs generalizing p with
  | nil => exact absurd rfl h
  | cons c cs ih =>
    rw [after_cons]
    cases cs with
    | nil => exact p.before_step c
    | cons d ds => exact (p.before_step c).trans (ih _ (List.cons_ne_nil d ds))

end Position

namespace Tiles

variable {done rest : List Char} {ts : List Token}

/-- A token starts after the text before it. -/
theorem exists_start (h : Tiles done rest ts) :
    ∀ t ∈ ts, ∃ g, t.start = Position.origin.after (done ++ g) := by
  induction h with
  | last hg => exact List.forall_mem_singleton.2 ⟨_, rfl⟩
  | @token done g l rest kind value ts hg hne hl h ih =>
    refine List.forall_mem_cons.2 ⟨⟨g, rfl⟩, fun t ht ↦ ?_⟩
    obtain ⟨k, hk⟩ := ih t ht
    exact ⟨g ++ (l ++ k), by rw [hk]; simp only [List.append_assoc]⟩

/-- The tokens of a text start one after the other. -/
theorem pairwise_start (h : Tiles done rest ts) :
    (ts.map Token.start).Pairwise Position.Before := by
  induction h with
  | last hg => exact List.pairwise_singleton _ _
  | @token done g l rest kind value ts hg hne hl h ih =>
    refine List.pairwise_cons.2 ⟨List.forall_mem_map.2 fun t ht ↦ ?_, ih⟩
    -- between the starts of two tokens there is the text of the first one
    obtain ⟨k, hk⟩ := h.exists_start t ht
    rw [hk, List.append_assoc _ l, Position.after_append _ (done ++ g) (l ++ k)]
    exact Position.before_after _ (List.append_ne_nil_of_left_ne_nil hne k)

end Tiles

/-- **The declarations of a program that was read from a text stand at different places.** -/
theorem Program.nodup_declaredPlaces {source : String} {ts : List Token} {p : Program}
    (hts : Token.scan source = .ok ts) (hp : ofTokens ts = .ok p) : p.declaredPlaces.Nodup := by
  have htiles : Tiles [] source.toList ts := Token.tiles_scanFrom hts
  have hends : Syntax.Ends ts := by
    obtain ⟨us, rfl, -⟩ := htiles.endOfText
    exact ⟨_, List.getLast?_concat, rfl⟩
  exact (htiles.pairwise_start.sublist (declaredPlaces_sublist hends hp)).imp Position.Before.ne

end Typewright
