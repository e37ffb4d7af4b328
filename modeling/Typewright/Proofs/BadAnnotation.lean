import Typewright.Proofs.ProgramTyping

/-!
# One bad annotation, one diagnostic

`Program.Spoils entry p q d` says that `q` is the program `p` with one annotation replaced by one
that is refused there: of a global variable, of a local variable in any block, of a parameter, or of
the result of a function other than the entry function.  It also says what there is to report about
that annotation, which is the diagnostic `d`.

The main result, `Program.one_diagnostic_of_spoils`, is that `d` is then the only diagnostic of `q`,
if `p` has none.  The name that lost its type is poisoned, so the contexts in which `q` is checked
no longer know all that `p` declares.  But they reflect it, and what is well typed in `p` is not
reported about in such a context, as the files on typing prove for expressions, statements and
functions.  So all that is left here is to follow the path to the place of the annotation: at every
step one part holds the annotation, by induction it is reported about once, and all other parts are
silent.

The result of the entry function is left out, because it is looked at twice: once as an annotation,
and once because the entry function must return nothing.  Its parameters need no such exception.  A
program without diagnostics has an entry function without parameters, so there is none to spoil.
-/

set_option autoImplicit false

namespace Typewright

open List (Forall₂)

/-! ## Replacing one annotation

One relation for each level of a program.  Each has a rule for every place where an annotation can
stand, and carries the diagnostic along. -/

/-- The declaration `w` is `v` with an annotation that no variable may have, and `d` reports it,
where `void` is the issue of the annotation `Void`. -/
inductive VarDecl.Spoils (void : Issue) (v : VarDecl) : VarDecl → Diagnostic → Prop
  | void : Spoils void v { v with typeName := Ty.void.name } (.located void v.position)
  | unknown {typeName : String} (h : ∀ t : Ty, typeName ≠ t.name) :
      Spoils void v { v with typeName } (.located (.unknownType typeName) v.position)

mutual
/-- One local variable of a block in the statement is spoiled. -/
inductive Stmt.Spoils : Stmt → Stmt → Diagnostic → Prop
  | block {b b' : Block} {d : Diagnostic} (h : b.Spoils b' d) :
      Stmt.Spoils (.block b) (.block b') d
  | condThen {p : Position} {c : Expr} {a a' b : Block} {d : Diagnostic} (h : a.Spoils a' d) :
      Stmt.Spoils (.cond p c a b) (.cond p c a' b) d
  | condElse {p : Position} {c : Expr} {a b b' : Block} {d : Diagnostic} (h : b.Spoils b' d) :
      Stmt.Spoils (.cond p c a b) (.cond p c a b') d
  | whileLoop {p : Position} {c : Expr} {b b' : Block} {d : Diagnostic} (h : b.Spoils b' d) :
      Stmt.Spoils (.whileLoop p c b) (.whileLoop p c b') d
  | forLoop {p : Position} {i c s : Expr} {b b' : Block} {d : Diagnostic} (h : b.Spoils b' d) :
      Stmt.Spoils (.forLoop p i c s b) (.forLoop p i c s b') d

/-- One local variable of the block, or of a block inside it, is spoiled. -/
inductive Block.Spoils : Block → Block → Diagnostic → Prop
  | here {p : Position} {pre post : List VarDecl} {v w : VarDecl} {body : List Stmt}
      {d : Diagnostic} (h : v.Spoils (.voidVariable v.name) w d) :
      Block.Spoils ⟨p, pre ++ v :: post, body⟩ ⟨p, pre ++ w :: post, body⟩ d
  | inside {p : Position} {vars : List VarDecl} {pre post : List Stmt} {s s' : Stmt}
      {d : Diagnostic} (h : s.Spoils s' d) :
      Block.Spoils ⟨p, vars, pre ++ s :: post⟩ ⟨p, vars, pre ++ s' :: post⟩ d
end

/-- One annotation of the function, or inside of it, is spoiled.  The annotation of its result may
be spoiled only if it is not the entry function. -/
inductive FnDecl.Spoils (entry : String) (f : FnDecl) : FnDecl → Diagnostic → Prop
  | body {b : Block} {d : Diagnostic} (h : f.body.Spoils b d) :
      Spoils entry f { f with body := b } d
  | param {pre post : List VarDecl} {v w : VarDecl} {d : Diagnostic}
      (hf : f.params = pre ++ v :: post) (h : v.Spoils (.voidParameter f.name v.name) w d) :
      Spoils entry f { f with params := pre ++ w :: post } d
  | resultPrint (hf : f.name ≠ entry) :
      Spoils entry f { f with returnType := printName }
        (.located (.returnTypeIsPrint f.name) f.position)
  | resultUnknown {typeName : String} (hf : f.name ≠ entry) (hprint : typeName ≠ printName)
      (h : ∀ t : Ty, typeName ≠ t.name) :
      Spoils entry f { f with returnType := typeName } (.located (.unknownType typeName) f.position)

/-- One annotation of the program is spoiled. -/
inductive Program.Spoils (entry : String) : Program → Program → Diagnostic → Prop
  | global {pre post : List Decl} {v w : VarDecl} {d : Diagnostic}
      (h : v.Spoils (.voidVariable v.name) w d) :
      Spoils entry ⟨pre ++ .global v :: post⟩ ⟨pre ++ .global w :: post⟩ d
  | function {pre post : List Decl} {f g : FnDecl} {d : Diagnostic} (h : f.Spoils entry g d) :
      Spoils entry ⟨pre ++ .function f :: post⟩ ⟨pre ++ .function g :: post⟩ d

/-! ## Lists with one element replaced

Lists of declarations, statements and functions are all treated in the same way: one element is
replaced and the others stay. -/

section Replace

variable {α β : Type} {x y : α} {pre post : List α}

/-- A relation that every element has to itself holds all along, if it holds where the element was
replaced. -/
theorem forall₂_replace {R : α → α → Prop} (hrefl : ∀ a, R a a) (h : R x y) (pre post : List α) :
    Forall₂ R (pre ++ x :: post) (pre ++ y :: post) :=
  List.rel_append (List.forall₂_same.2 fun a _ ↦ hrefl a)
    (.cons h (List.forall₂_same.2 fun a _ ↦ hrefl a))

/-- Where all elements but the one in the place of `x` give nothing, it gives all there is. -/
theorem flatMap_replace {P : α → Prop} {g : α → List β} (h : ∀ a ∈ pre ++ x :: post, P a)
    (hg : ∀ a, P a → g a = []) : (pre ++ y :: post).flatMap g = g y := by
  have hpre : pre.flatMap g = [] :=
    List.flatMap_eq_nil_iff.2 fun a ha ↦ hg a (h a (List.mem_append_left _ ha))
  have hpost : post.flatMap g = [] := List.flatMap_eq_nil_iff.2 fun a ha ↦
    hg a (h a (List.mem_append_right _ (List.mem_cons_of_mem x ha)))
  rw [List.flatMap_append, List.flatMap_cons, hpre, hpost, List.nil_append, List.append_nil]

end Replace

/-! ## Variables

A spoiled variable keeps its name and loses its type.  The first is why it is not reported for its
name, the second why everything that uses it is silent. -/

theorem Ty.ofName?_eq_none {s : String} (h : ∀ t : Ty, s ≠ t.name) : Ty.ofName? s = none :=
  Option.eq_none_iff_forall_ne_some.2 fun t ht ↦ h t (Ty.ofName?_eq_some_iff.1 ht)

namespace VarDecl.Spoils

variable {void : Issue} {v w : VarDecl} {d : Diagnostic}

theorem name_eq (h : v.Spoils void w d) : w.name = v.name := by
  cases h <;> rfl

/-- The new annotation is reported, and that is `d`. -/
theorem annotationDiagnostics_eq (h : v.Spoils void w d) : w.annotationDiagnostics void = [d] := by
  cases h with
  | void => rfl
  | @unknown typeName h =>
    simp [annotationDiagnostics, Rule.variableIssue?, Ty.ofName?_eq_none h]

/-- The variable has lost its type. -/
theorem blurs (h : v.Spoils void w d) : v.Blurs True w where
  name := h.name_eq
  typed := by
    intro t _
    refine .inr ⟨trivial, ?_⟩
    by_contra hsome
    obtain ⟨t, ht⟩ := Option.ne_none_iff_exists'.1 hsome
    have hnil : w.annotationDiagnostics void = [] :=
      annotationDiagnostics_eq_nil_iff.2 ⟨t, hasType_iff.2 ht⟩
    rw [h.annotationDiagnostics_eq] at hnil
    cases hnil

end VarDecl.Spoils

/-- Among well-formed declarations, only the one that is spoiled is reported about. -/
theorem Scope.Declares.diagnostics_of_spoils {void : VarDecl → Issue}
    {events : Scope → List VarDecl → List Event} (h : Scope.Declares void events)
    {pre post : List VarDecl} {v w : VarDecl} {d : Diagnostic}
    (hvs : VarDecl.WellFormed (pre ++ v :: post)) (hw : v.Spoils (void v) w d)
    (hvoid : void w = void v) : Event.diagnostics (events [] (pre ++ w :: post)) = [d] := by
  have hnames : (pre ++ w :: post).map VarDecl.name = (pre ++ v :: post).map VarDecl.name := by
    simp [hw.name_eq]
  rw [h.diagnostics_of_nodup (hnames ▸ hvs.distinct) (fun _ _ ↦ rfl),
    flatMap_replace hvs.typed fun a ha ↦ VarDecl.annotationDiagnostics_eq_nil_iff.2 ha, hvoid,
    hw.annotationDiagnostics_eq]

/-! ## Statements

Either a variable of the block itself is spoiled, and then all statements are checked in a context
that has lost a type; or one inside a statement is, and then the others are checked as before. -/

/-- **A spoiled variable in a statement is reported about once**, and so is one in a block. -/
theorem Stmt.diagnostics_of_spoils {ret : Ty} {ret' : Option Ty} (hret : Near True ret ret')
    {d : Diagnostic} :
    (∀ s : Stmt, ∀ {s' : Stmt} {Γ : Env} {σ : Site} {loop : Bool}, s.Spoils s' d →
      s.WellFormed Γ ret loop → σ.Reflects True Γ loop →
      Event.diagnostics (s'.events σ ret') = [d]) ∧
    ∀ b : Block, ∀ {b' : Block} {Γ : Env} {σ : Site} {loop : Bool}, b.Spoils b' d →
      b.WellFormed Γ ret loop → σ.Reflects True Γ loop →
      Event.diagnostics (b'.events σ ret') = [d] := by
  have hstmt := (Stmt.diagnostics_of_wellFormed hret).1
  have hblock := (Stmt.diagnostics_of_wellFormed hret).2
  refine Stmt.induct ?block ?cond ?whileLoop ?forLoop ?ret ?jump ?expr ?body
  case block =>
    intro b ih s' Γ σ loop hs h hσ
    cases hs with
    | block hb' =>
      cases h with
      | block hb =>
        rw [diagnostics_block]
        exact ih hb' hb hσ
  case cond =>
    intro p c a b iha ihb s' Γ σ loop hs h hσ
    cases h with
    | cond hc ha hb =>
      have hpred := c.diagnostics_predicateEvents_of_hasType hσ.context hc "if" p
      cases hs with
      | condThen ha' =>
        rw [diagnostics_cond, hpred, iha ha' ha hσ.push_nil, hblock b hb hσ.push_nil]
        rfl
      | condElse hb' =>
        rw [diagnostics_cond, hpred, hblock a ha hσ.push_nil, ihb hb' hb hσ.push_nil]
        rfl
  case whileLoop =>
    intro p c b ih s' Γ σ loop hs h hσ
    cases hs with
    | whileLoop hb' =>
      cases h with
      | whileLoop hc hb =>
        rw [diagnostics_whileLoop, c.diagnostics_predicateEvents_of_hasType hσ.context hc,
          ih hb' hb hσ.inLoop]
        rfl
  case forLoop =>
    intro p i c s b ih s' Γ σ loop hs h hσ
    cases hs with
    | forLoop hb' =>
      cases h with
      | forLoop hi hc hs hb =>
        rw [diagnostics_forLoop, (check_of_hasType hσ.context i _ hi).2,
          c.diagnostics_loopConditionEvents_of_hasType hσ.context hc,
          (check_of_hasType hσ.context s _ hs).2, ih hb' hb hσ.inLoop]
        rfl
  case ret => exact fun p e s' Γ σ loop hs ↦ nomatch hs
  case jump => exact fun p j s' Γ σ loop hs ↦ nomatch hs
  case expr => exact fun e s' Γ σ loop hs ↦ nomatch hs
  case body =>
    intro p vars ss ih b' Γ σ loop hs h hσ
    cases h with
    | mk hvars hbody =>
      cases hs with
      -- the variable is one of this block: it is reported, and the statements are silent without
      -- its type
      | @here _ pre post v w _ _ hw =>
        have hpush := hσ.push (forall₂_replace (VarDecl.Blurs.refl True) hw.blurs pre post)
        have hvoid : Issue.voidVariable w.name = .voidVariable v.name := by rw [hw.name_eq]
        rw [Block.diagnostics_mk, Scope.declares_locals.diagnostics_of_spoils hvars hw hvoid,
          List.flatMap_eq_nil_iff.2 fun s hs ↦ hstmt s (hbody s hs) hpush, List.append_nil]
      -- it is one of a block inside: the variables of this block and all other statements are
      -- silent
      | @inside _ _ pre post s s' _ hs' =>
        have hpush := hσ.push (VarDecl.forall₂_blurs_refl True vars)
        have hmem : s ∈ pre ++ s :: post := List.mem_append_right pre List.mem_cons_self
        rw [Block.diagnostics_mk, Scope.declares_locals.diagnostics_eq_nil_iff.2 hvars,
          flatMap_replace hbody fun s hs ↦ hstmt s hs hpush, ih s hmem hs' (hbody s hmem) hpush,
          List.nil_append]

/-! ## Functions

A spoiled parameter or result also changes the signature of the function, which its callers look at.
`FnDecl.Spoils.blurs` says that they lose a type at most. -/

/-- Blurred functions have the names that they had. -/
theorem FnDecl.map_name_of_blurs {lax : Prop} {fs gs : List FnDecl}
    (h : Forall₂ (FnDecl.Blurs lax) fs gs) : gs.map FnDecl.name = fs.map FnDecl.name := by
  induction h with
  | nil => rfl
  | cons hfg _ ih => rw [List.map_cons, List.map_cons, hfg.name, ih]

namespace FnDecl.Spoils

variable {entry : String} {f g : FnDecl} {d : Diagnostic}

/-- The function is still called in the same way, though a type of its signature may be lost. -/
theorem blurs (h : f.Spoils entry g d) : f.Blurs True g := by
  have hrefl := FnDecl.Blurs.refl True f
  cases h with
  | body h => exact ⟨rfl, hrefl.params, hrefl.result⟩
  | @param pre post v w _ hf hw =>
    refine ⟨rfl, ?_, hrefl.result⟩
    rw [hf]
    exact forall₂_replace (VarDecl.Blurs.refl True) hw.blurs pre post
  | resultPrint hf => exact ⟨rfl, hrefl.params, fun t _ ↦ .inr ⟨trivial, rfl⟩⟩
  | resultUnknown hf hprint h =>
    exact ⟨rfl, hrefl.params, fun t _ ↦ .inr ⟨trivial, Ty.ofName?_eq_none h⟩⟩

/-- The entry function keeps its annotations, if it has no parameters. -/
theorem annotations_eq (h : f.Spoils entry g d) (hname : f.name = entry) (hparams : f.params = []) :
    g.params = [] ∧ g.returnType = f.returnType := by
  cases h with
  | body h => exact ⟨hparams, rfl⟩
  | param hf hw => simp [hparams] at hf
  | resultPrint hf => exact absurd hname hf
  | resultUnknown hf => exact absurd hname hf

/-- **A spoiled annotation of a function is reported about once.** -/
theorem diagnostics_eq (h : f.Spoils entry g d) {σ : Site} {Γ : Env}
    (hσ : σ.context.Reflects True Γ) (hf : f.WellTyped Γ) :
    Event.diagnostics (g.events σ) = [d] := by
  obtain ⟨ret, hret, hbody⟩ := hf.body
  have hresult : Rule.resultIssue? f.name f.returnType = none :=
    Rule.resultIssue?_eq_none_iff.2 ⟨ret, hret⟩
  have hparams := (Scope.declares_params f.name).diagnostics_eq_nil_iff.2 hf.params
  have hsite := reflects_body hσ h.blurs.params
  have hnear := h.blurs.result ret hret
  -- if the spoiled annotation is not in the body, the body is silent, although a type is lost in it
  have hsilent := (Stmt.diagnostics_of_wellFormed hnear).2 f.body hbody hsite
  cases h with
  | body h =>
    exact diagnostics_events_of hresult hparams
      ((Stmt.diagnostics_of_spoils hnear).2 f.body h hbody hsite) rfl
  | @param pre post v w _ hfv hw =>
    have hvoid : Issue.voidParameter f.name w.name = .voidParameter f.name v.name := by
      rw [hw.name_eq]
    have hvs : VarDecl.WellFormed (pre ++ v :: post) := hfv ▸ hf.params
    exact diagnostics_events_of hresult
      ((Scope.declares_params f.name).diagnostics_of_spoils hvs hw hvoid) hsilent rfl
  | resultPrint hname => exact diagnostics_events_of rfl hparams hsilent rfl
  | @resultUnknown typeName hname hprint h =>
    have hissue : Rule.resultIssue? f.name typeName = some (.unknownType typeName) := by
      rw [Rule.resultIssue?, if_neg hprint, Ty.ofName?_eq_none h]
    exact diagnostics_events_of hissue hparams hsilent rfl

end FnDecl.Spoils

/-! ## Programs

The three passes before the bodies see the same names as before, so at most one of them has
something to report, and only about the annotation. -/

namespace Program

theorem functions_mk_function (pre post : List Decl) (f : FnDecl) :
    (⟨pre ++ .function f :: post⟩ : Program).functions
      = pre.filterMap Decl.function? ++ f :: post.filterMap Decl.function? := by
  simp [functions]

theorem functions_mk_global (pre post : List Decl) (v : VarDecl) :
    (⟨pre ++ .global v :: post⟩ : Program).functions
      = pre.filterMap Decl.function? ++ post.filterMap Decl.function? := by
  simp [functions, List.filterMap_cons]

theorem globals_mk_function (pre post : List Decl) (f : FnDecl) :
    (⟨pre ++ .function f :: post⟩ : Program).globals
      = pre.filterMap Decl.global? ++ post.filterMap Decl.global? := by
  simp [globals, List.filterMap_cons, Decl.global?]

theorem globals_mk_global (pre post : List Decl) (v : VarDecl) :
    (⟨pre ++ .global v :: post⟩ : Program).globals
      = pre.filterMap Decl.global? ++ v :: post.filterMap Decl.global? := by
  simp [globals, Decl.global?]

namespace Spoils

variable {entry : String} {p q : Program} {d : Diagnostic}

/-- The program declares the same names, though some may have lost a type. -/
theorem blurs (h : p.Spoils entry q d) :
    Forall₂ (VarDecl.Blurs True) p.globals q.globals ∧
      Forall₂ (FnDecl.Blurs True) p.functions q.functions := by
  have hvars := VarDecl.Blurs.refl True
  have hfns := FnDecl.Blurs.refl True
  cases h with
  | global hw =>
    rw [globals_mk_global, globals_mk_global, functions_mk_global, functions_mk_global]
    exact ⟨forall₂_replace hvars hw.blurs _ _, List.forall₂_same.2 fun f _ ↦ hfns f⟩
  | function hg =>
    rw [globals_mk_function, globals_mk_function, functions_mk_function, functions_mk_function]
    exact ⟨List.forall₂_same.2 fun v _ ↦ hvars v, forall₂_replace hfns hg.blurs _ _⟩

/-- The entry function is as it was. -/
theorem exists_entry (h : p.Spoils entry q d)
    (hp : ∃ f ∈ p.functions, f.name = entry ∧ f.params = [] ∧ f.returnType = Ty.void.name) :
    ∃ f ∈ q.functions, f.name = entry ∧ f.params = [] ∧ f.returnType = Ty.void.name := by
  obtain ⟨e, he, hname, hparams, hreturn⟩ := hp
  cases h with
  | global hw =>
    rw [functions_mk_global] at he ⊢
    exact ⟨e, he, hname, hparams, hreturn⟩
  | @function pre post f g _ hg =>
    rw [functions_mk_function] at he ⊢
    -- the entry function itself may be the one that is spoiled, but then only in its body
    by_cases hef : e = f
    · subst hef
      obtain ⟨hparams', hreturn'⟩ := hg.annotations_eq hname hparams
      exact ⟨g, List.mem_append_right _ List.mem_cons_self, hg.blurs.name.trans hname, hparams',
        hreturn'.trans hreturn⟩
    · have he' : e ∈ pre.filterMap Decl.function? ++ g :: post.filterMap Decl.function? := by
        simpa [hef, or_left_comm] using Or.inr he
      exact ⟨e, he', hname, hparams, hreturn⟩

/-- The spoiled program has the one diagnostic that is about the annotation. -/
theorem diagnostics_eq (h : p.Spoils entry q d) (hp : p.WellTyped entry) :
    q.diagnostics entry = [d] := by
  obtain ⟨hglobals, hfunctions⟩ := h.blurs
  have hsite := reflects_site hglobals hfunctions
  have hnames := FnDecl.map_name_of_blurs hfunctions
  -- spoiling keeps all names, so the functions are installed as before
  have hreserved : ∀ f ∈ q.functions, f.name ≠ printName := by
    intro f hf hprint
    have hmem : printName ∈ p.functions.map FnDecl.name :=
      hnames ▸ hprint ▸ List.mem_map_of_mem hf
    obtain ⟨f', hf', heq⟩ := List.mem_map.1 hmem
    exact hp.reserved f' hf' heq
  rw [diagnostics_eq_of_entry (hnames ▸ hp.distinct) hreserved (h.exists_entry hp.entry)]
  have hsilent : ∀ f : FnDecl, f.WellTyped p.env → Event.diagnostics (f.events q.site) = [] :=
    fun f hf ↦ FnDecl.diagnostics_of_wellTyped hsite hf
  have hvars := hp.globals
  have hfns := hp.functions
  cases h with
  | @global pre post v w _ hw =>
    have hvoid : Issue.voidVariable w.name = .voidVariable v.name := by rw [hw.name_eq]
    rw [globals_mk_global] at hvars ⊢
    rw [functions_mk_global] at hfns ⊢
    rw [Scope.declares_globals.diagnostics_of_spoils hvars hw hvoid,
      List.flatMap_eq_nil_iff.2 fun f hf ↦ hsilent f (hfns f hf), List.append_nil]
  | @function pre post f g _ hg =>
    rw [globals_mk_function] at hvars ⊢
    rw [functions_mk_function] at hfns ⊢
    have hf := hfns f (List.mem_append_right _ List.mem_cons_self)
    rw [Scope.declares_globals.diagnostics_eq_nil_iff.2 hvars, flatMap_replace hfns hsilent,
      hg.diagnostics_eq hsite hf, List.nil_append]

end Spoils

/-- **One bad annotation, one diagnostic.**  If a program has no diagnostics, then the program with
one annotation spoiled has exactly one.  It is at the declaration with the annotation, and no use of
the name that lost its type adds another. -/
theorem one_diagnostic_of_spoils {entry : String} {p q : Program} {d : Diagnostic}
    (hp : ∃ r c, p.check entry = .ok (r, c) ∧ c.diagnostics = []) (h : p.Spoils entry q d) :
    ∃ r c, q.check entry = .ok (r, c) ∧ c.diagnostics = [d] := by
  obtain ⟨r, c, hcheck, hnil⟩ := hp
  rw [check_eq, Except.ok.injEq, Prod.mk.injEq] at hcheck
  rw [← hcheck.2, diagnostics_checked, diagnostics_eq_nil_iff] at hnil
  refine ⟨q.annotate, q.checked entry, q.check_eq entry, ?_⟩
  rw [diagnostics_checked, h.diagnostics_eq hnil]

/-- A function that gives half of its parameter, which is annotated with `typeName`, and a `main`
that calls it and assigns what it gives. -/
def halving (typeName : String) : Program where
  decls :=
    [.function {
      name := "half"
      params := [⟨"x", typeName, ⟨1, 11⟩⟩]
      returnType := "Int"
      body := ⟨⟨1, 20⟩, [], [.ret ⟨2, 3⟩ (.binary ⟨⟨2, 10⟩, none⟩ (.var ⟨⟨2, 10⟩, none⟩ "x") .div
        (.int ⟨⟨2, 14⟩, none⟩ 2))]⟩
      position := ⟨1, 1⟩ },
    .function {
      name := "main"
      params := []
      returnType := "Void"
      body := ⟨⟨4, 18⟩, [⟨"y", "Int", ⟨5, 3⟩⟩], [.expr (.assign ⟨⟨6, 3⟩, none⟩ "y"
        (.call ⟨⟨6, 7⟩, none⟩ "half" [.actual ⟨⟨6, 12⟩, none⟩ (.int ⟨⟨6, 12⟩, none⟩ 8)]))]⟩
      position := ⟨4, 1⟩ }]

/-- The parameter of `half` cannot be `Void`.  It is used in the body of `half`, and `half` is
called in `main`, but only the parameter is reported about. -/
theorem diagnostics_halving_void :
    (∃ r c, (halving "Int").check "main" = .ok (r, c) ∧ c.diagnostics = []) ∧
      ∃ r c, (halving "Void").check "main" = .ok (r, c) ∧
        c.diagnostics = [.located (.voidParameter "half" "x") ⟨1, 11⟩] := by
  have hp : ∃ r c, (halving "Int").check "main" = .ok (r, c) ∧ c.diagnostics = [] := by
    refine ⟨_, _, check_eq _ _, ?_⟩
    rw [diagnostics_checked]
    rfl
  refine ⟨hp, one_diagnostic_of_spoils hp ?_⟩
  exact @Spoils.function "main" [] _ _ _ _ (@FnDecl.Spoils.param _ _ [] [] _ _ _ rfl .void)

end Program

end Typewright
