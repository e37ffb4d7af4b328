import Mathlib.Data.List.Flatten
import Typewright.Proofs.DeclaredPlaces
import Typewright.Proofs.FirstDeclaration
import Typewright.Proofs.Installation

/-!
# Which annotations are reported

An annotation that a variable cannot have is reported once, at the place of the declaration, and one
that it can have is not.  This holds of parameters and of local variables also where their name is
declared before, but not of global variables: the annotation of a global variable whose name is
taken is not looked at.  `Program.annotations_reported` says so for every program that was read from
a text, and `Program.check_globalTwice` has a text where the annotation of a second global variable
is not reported.

The check reports about annotations declaration by declaration (`Program.about_annotating`), and the
declarations stand at different places, so what is reported at the place of one of them is about
that one.  The second half of this argument is why the program has to come from a text.  In a tree
that was made by hand two declarations can be given the same place, and then a diagnostic there does
not tell which of the two it is about.

An `AnnotationReports` is the list of the places with what is to be reported at each.  Keeping the
places in the list, and not only the diagnostics, is what makes the two halves meet: a good
annotation has an entry without diagnostics, so its place is there to be compared with the others.
-/

set_option autoImplicit false

namespace Typewright

open Diagnostic

/-! ## Annotations

What there is to report about one annotation, and which annotations are looked at inside of a body:
those of all local variables, however deep.  Everything else in a body is about other topics. -/

/-- The diagnostics about annotations at a place. -/
def Diagnostic.annotatingAt (x : Position) (ds : List Diagnostic) : List Diagnostic :=
  (about .annotating ds).filter (·.position = some x)

namespace VarDecl

/-- What there is to report about the annotation of a variable: nothing if it names the type of a
value, and else one thing, which is `void` if it is `Void`. -/
inductive Reported (void : Issue) (v : VarDecl) : List Diagnostic → Prop
  | value {t : Ty} (h : v.HasType t) : Reported void v []
  | void (h : v.typeName = Ty.void.name) : Reported void v [.located void v.position]
  | unknown (h : ∀ t : Ty, v.typeName ≠ t.name) :
      Reported void v [.located (.unknownType v.typeName) v.position]

/-- The three cases of an annotation, as the rule of the check splits them. -/
theorem reported_annotationDiagnostics (void : Issue) (v : VarDecl) :
    v.Reported void (v.annotationDiagnostics void) := by
  rw [annotationDiagnostics, Rule.variableIssue?]
  cases ht : Ty.ofName? v.typeName with
  | none =>
    refine .unknown fun t hname ↦ ?_
    rw [Ty.ofName?_eq_some_iff.2 hname] at ht
    cases ht
  | some t =>
    have hname := Ty.ofName?_eq_some_iff.1 ht
    cases t with
    | void => exact .void hname
    | int | float | string | bool => exact .value ⟨hname, by decide⟩

theorem position_annotationDiagnostics (void : Issue) (v : VarDecl) :
    ∀ d ∈ v.annotationDiagnostics void, d.position = some v.position :=
  List.forall_mem_map.2 fun _ _ ↦ rfl

end VarDecl

/-- The annotations in the body of a function are reported for all its local variables. -/
theorem Stmt.about_annotating (ret : Option Ty) :
    (∀ (s : Stmt) (σ : Site), about .annotating (Event.diagnostics (s.events σ ret))
      = s.varDecls.flatMap fun v ↦ v.annotationDiagnostics (.voidVariable v.name)) ∧
    ∀ (b : Block) (σ : Site), about .annotating (Event.diagnostics (b.events σ ret))
      = b.varDecls.flatMap fun v ↦ v.annotationDiagnostics (.voidVariable v.name) := by
  -- expressions and conditions have no annotations, so only the declarations of a block are left
  have hexpr : ∀ (e : Expr) (Γ : Context), about .annotating (e.check Γ).diagnostics = [] :=
    fun e Γ ↦ (e.topic_check Γ).about_eq_nil (by decide)
  have hpredicate : ∀ (e : Expr) (Γ : Context) (statement : String) (p : Position),
      about .annotating (Event.diagnostics (e.predicateEvents Γ statement p)) = [] :=
    fun e Γ statement p ↦ (e.topic_predicate Γ statement p).about_eq_nil (by decide)
  refine Stmt.induct ?block ?cond ?whileLoop ?forLoop ?ret ?jump ?expr ?body
  case block =>
    intro b ih σ
    rw [diagnostics_block, varDecls]
    exact ih σ
  case cond =>
    intro p c a b iha ihb σ
    rw [diagnostics_cond, about_append, about_append, hpredicate, iha, ihb, varDecls,
      List.flatMap_append, List.nil_append]
  case whileLoop =>
    intro p c b ih σ
    rw [diagnostics_whileLoop, about_append, hpredicate, ih, varDecls, List.nil_append]
  case forLoop =>
    intro p i c s b ih σ
    rw [diagnostics_forLoop, about_append, about_append, about_append, hexpr, hexpr, ih,
      (c.topic_loopCondition _ p).about_eq_nil (by decide), varDecls]
    rfl
  case ret =>
    intro p e σ
    rw [diagnostics_ret, (e.topic_return σ ret p).about_eq_nil (by decide)]
    rfl
  case jump =>
    intro p j σ
    rw [diagnostics_jump, (Rule.topic_jumpIssue? σ.loops j p).about_eq_nil (by decide)]
    rfl
  case expr =>
    intro e σ
    rw [diagnostics_expr, hexpr]
    rfl
  case body =>
    intro p vars ss ih σ
    rw [Block.diagnostics_mk, about_append, Scope.loop_locals.about_annotating, about_flatMap,
      List.flatMap_congr fun s hs ↦ ih s hs _, Block.varDecls, varDeclsAll_eq_flatMap,
      List.flatMap_append, List.flatMap_assoc]
    rfl

/-! ## Declaration by declaration

First lists of places and reports in general, then the list of a function and the list of a program.
The order of the list is the order of the passes, which is not the order of the text: the globals
come first. -/

/-- What is reported about annotations at each of some places. -/
abbrev AnnotationReports := List (Position × List Diagnostic)

namespace AnnotationReports

variable {rs : AnnotationReports}

/-- What is reported for a place is located there. -/
def Located (rs : AnnotationReports) : Prop := ∀ r ∈ rs, ∀ d ∈ r.2, d.position = some r.1

theorem Located.append {ss : AnnotationReports} (hrs : rs.Located) (hss : ss.Located) :
    Located (rs ++ ss) :=
  List.forall_mem_append.2 ⟨hrs, hss⟩

/-- Nothing is reported at other places. -/
theorem Located.filter_eq_nil (h : rs.Located) {x : Position} (hx : x ∉ rs.map Prod.fst) :
    (rs.flatMap Prod.snd).filter (·.position = some x) = [] := by
  rw [List.filter_eq_nil_iff, List.forall_mem_flatMap]
  intro r hr d hd heq
  rw [h r hr d hd, decide_eq_true_iff, Option.some_inj] at heq
  exact hx (List.mem_map.2 ⟨r, hr, heq⟩)

/-- Where the places are different, what is reported at one of them is what is reported for it. -/
theorem Located.filter_eq (h : rs.Located) (hnodup : (rs.map Prod.fst).Nodup) :
    ∀ {r : Position × List Diagnostic}, r ∈ rs →
      (rs.flatMap Prod.snd).filter (·.position = some r.1) = r.2 := by
  induction rs with
  | nil => exact fun hr ↦ absurd hr List.not_mem_nil
  | cons s ss ih =>
    intro r hr
    obtain ⟨hs, hss⟩ := List.forall_mem_cons.1 h
    rw [List.map_cons, List.nodup_cons] at hnodup
    rw [List.flatMap_cons, List.filter_append]
    rcases List.mem_cons.1 hr with rfl | hr
    · rw [Located.filter_eq_nil hss hnodup.1, List.append_nil]
      exact List.filter_eq_self.2 fun d hd ↦ decide_eq_true (hs d hd)
    · rw [ih hss hnodup.2 hr, List.filter_eq_nil_iff.2, List.nil_append]
      intro d hd heq
      rw [hs d hd, decide_eq_true_iff, Option.some_inj] at heq
      exact hnodup.1 (heq ▸ List.mem_map_of_mem hr)

end AnnotationReports

namespace VarDecl

/-- What a check reports about the annotations of variables. -/
def annotationReports (void : VarDecl → Issue) (vs : List VarDecl) : AnnotationReports :=
  vs.map fun v ↦ (v.position, v.annotationDiagnostics (void v))

theorem flatMap_annotationReports (void : VarDecl → Issue) (vs : List VarDecl) :
    (annotationReports void vs).flatMap Prod.snd
      = vs.flatMap fun v ↦ v.annotationDiagnostics (void v) :=
  List.flatMap_map _ _ _

theorem map_fst_annotationReports (void : VarDecl → Issue) (vs : List VarDecl) :
    (annotationReports void vs).map Prod.fst = vs.map VarDecl.position :=
  List.map_map

theorem located_annotationReports (void : VarDecl → Issue) (vs : List VarDecl) :
    (annotationReports void vs).Located :=
  List.forall_mem_map.2 fun v _ ↦ v.position_annotationDiagnostics (void v)

end VarDecl

/-- What a check reports about the annotations of a function and of the variables in it. -/
def FnDecl.annotationReports (f : FnDecl) : AnnotationReports :=
  (f.position, about .annotating
      ((Rule.resultIssue? f.name f.returnType).toList.map (.located · f.position)))
    :: (VarDecl.annotationReports (.voidParameter f.name ·.name) f.params
      ++ VarDecl.annotationReports (.voidVariable ·.name) f.body.varDecls)

namespace FnDecl

theorem about_annotating (σ : Site) (f : FnDecl) :
    about .annotating (Event.diagnostics (f.events σ)) = f.annotationReports.flatMap Prod.snd := by
  rw [diagnostics_events, about_append, about_append,
    (Scope.loop_params f.name).about_annotating, (Stmt.about_annotating _).2, annotationReports,
    List.flatMap_cons, List.flatMap_append, VarDecl.flatMap_annotationReports,
    VarDecl.flatMap_annotationReports]
  rfl

theorem map_fst_annotationReports (f : FnDecl) :
    f.annotationReports.map Prod.fst = f.position :: f.varDecls.map VarDecl.position := by
  rw [annotationReports, List.map_cons, List.map_append, VarDecl.map_fst_annotationReports,
    VarDecl.map_fst_annotationReports, varDecls, List.map_append]

theorem located_annotationReports (f : FnDecl) : f.annotationReports.Located := by
  have hvariables := (VarDecl.located_annotationReports (.voidParameter f.name ·.name)
    f.params).append (VarDecl.located_annotationReports (.voidVariable ·.name) f.body.varDecls)
  refine List.forall_mem_cons.2 ⟨fun d hd ↦ ?_, hvariables⟩
  obtain ⟨i, -, rfl⟩ := List.mem_map.1 (List.mem_of_mem_filter hd)
  rfl

end FnDecl

namespace Program

/-- What a check reports about the annotations of a program.  The annotation of a global variable
whose name is declared before is not looked at. -/
def annotationReports (p : Program) : AnnotationReports :=
  VarDecl.annotationReports (.voidVariable ·.name) (VarDecl.firsts p.globals)
    ++ (p.installed p.registry).flatMap FnDecl.annotationReports

/-- The diagnostics of a program about annotations, one declaration after the other. -/
theorem about_annotating (p : Program) (entry : String) :
    about .annotating (p.diagnostics entry) = p.annotationReports.flatMap Prod.snd := by
  have hinstall : about .annotating
      (Event.diagnostics (Registry.empty.installEvents 0 p.decls)) = [] :=
    (Registry.topic_installEvents _ _ _).about_eq_nil (by decide)
  have hentry : about .annotating (Event.diagnostics (p.registry.entryEvents entry)) = [] :=
    (Registry.topic_entryEvents _ entry).about_eq_nil (by decide)
  rw [about_diagnostics, hinstall, hentry, Scope.loop_globals.about_annotating, annotationReports,
    List.flatMap_append, VarDecl.flatMap_annotationReports, List.flatMap_assoc]
  simp only [FnDecl.about_annotating]
  rfl

theorem mem_annotationReports_of_global {p : Program} {v : VarDecl}
    (hv : v ∈ VarDecl.firsts p.globals) :
    (v.position, v.annotationDiagnostics (.voidVariable v.name)) ∈ p.annotationReports :=
  List.mem_append_left _ (List.mem_map.2 ⟨v, hv, rfl⟩)

theorem mem_annotationReports_of_param {p : Program} {f : FnDecl}
    (hf : f ∈ p.installed p.registry) {v : VarDecl} (hv : v ∈ f.params) :
    (v.position, v.annotationDiagnostics (.voidParameter f.name v.name)) ∈ p.annotationReports := by
  refine List.mem_append_right _ (List.mem_flatMap.2 ⟨f, hf, List.mem_cons_of_mem _ ?_⟩)
  exact List.mem_append_left _ (List.mem_map.2 ⟨v, hv, rfl⟩)

theorem mem_annotationReports_of_local {p : Program} {f : FnDecl}
    (hf : f ∈ p.installed p.registry) {v : VarDecl} (hv : v ∈ f.body.varDecls) :
    (v.position, v.annotationDiagnostics (.voidVariable v.name)) ∈ p.annotationReports := by
  refine List.mem_append_right _ (List.mem_flatMap.2 ⟨f, hf, List.mem_cons_of_mem _ ?_⟩)
  exact List.mem_append_right _ (List.mem_map.2 ⟨v, hv, rfl⟩)

theorem located_annotationReports (p : Program) : p.annotationReports.Located := by
  refine .append (VarDecl.located_annotationReports _ _) ?_
  rw [AnnotationReports.Located, List.forall_mem_flatMap]
  exact fun f _ ↦ f.located_annotationReports

/-! ## Places

The declarations of a program that was read from a text stand at different places.  The places for
which something is reported are some of these in another order, together with those of the globals
that are skipped. -/

/-- The places of global variables and those in functions are the places of all declarations. -/
theorem perm_declaredPlaces (ds : List Decl) :
    ((ds.filterMap Decl.global?).map VarDecl.position ++ (ds.filterMap Decl.function?).flatMap
      fun f ↦ f.position :: f.varDecls.map VarDecl.position).Perm
        (ds.flatMap Decl.declaredPlaces) := by
  induction ds with
  | nil => exact .refl _
  | cons d ds ih =>
    cases d with
    | global v => exact ih.cons v.position
    | function f =>
      exact (List.perm_append_comm_assoc _ _ _).trans (ih.append_left _)

/-- The installed functions are functions of the program, each one once. -/
theorem installed_sublist (p : Program) (r : Registry) : (p.installed r).Sublist p.functions := by
  have hdecls : (p.withoutRefused r).decls.Sublist p.decls := by
    have hfilter := List.Sublist.map Prod.fst (List.filter_sublist
      (p := fun x ↦ (Decl.refused? r x.1 x.2).isNone) (l := p.decls.zipIdx))
    rwa [List.zipIdx_map_fst] at hfilter
  rw [← functions_withoutRefused]
  exact hdecls.filterMap _

/-- The places for which something can be reported are different, and none of them is the place of a
global variable whose name is declared before. -/
theorem nodup_annotationReports {p : Program} (h : p.declaredPlaces.Nodup) :
    ((VarDecl.repeats p.globals).map VarDecl.position
      ++ p.annotationReports.map Prod.fst).Nodup := by
  have hglobals := (VarDecl.perm_repeats_firsts p.globals).map VarDecl.position
  have hfunctions := (p.installed_sublist p.registry).flatMap
    fun f ↦ f.position :: f.varDecls.map VarDecl.position
  rw [List.map_append] at hglobals
  rw [annotationReports, List.map_append, VarDecl.map_fst_annotationReports, List.map_flatMap,
    ← List.append_assoc]
  simp only [FnDecl.map_fst_annotationReports]
  refine ((hglobals.append_right _).nodup_iff).2 ?_
  exact ((perm_declaredPlaces p.decls).nodup_iff.2 h).sublist (hfunctions.append_left _)

/-- What is reported at a place of the program. -/
theorem annotatingAt_eq {p : Program} (h : p.declaredPlaces.Nodup) (entry : String)
    {r : Position × List Diagnostic} (hr : r ∈ p.annotationReports) :
    annotatingAt r.1 (p.diagnostics entry) = r.2 := by
  rw [annotatingAt, about_annotating]
  exact p.located_annotationReports.filter_eq
    (List.nodup_append.1 (nodup_annotationReports h)).2.1 hr

/-- **Annotations are reported once, except those of global variables whose name is taken.**  If a
program was read from a text, then at the place of every parameter and of every local variable of an
installed function the annotation is reported as it should be, also if the name is declared before
in the same scope.  The same holds of the first global variable with a name.  Nothing is
reported about the annotation of a later one. -/
theorem annotations_reported {source : String} {ts : List Token} {p : Program}
    (hts : Token.scan source = .ok ts) (hp : ofTokens ts = .ok p) (entry : String) :
    ∃ q c, p.check entry = .ok (q, c) ∧
      (∀ v ∈ VarDecl.firsts p.globals,
        v.Reported (.voidVariable v.name) (annotatingAt v.position c.diagnostics)) ∧
      (∀ v ∈ VarDecl.repeats p.globals, annotatingAt v.position c.diagnostics = []) ∧
      ∀ f ∈ p.installed c.registry,
        (∀ v ∈ f.params,
          v.Reported (.voidParameter f.name v.name) (annotatingAt v.position c.diagnostics)) ∧
        ∀ v ∈ f.body.varDecls,
          v.Reported (.voidVariable v.name) (annotatingAt v.position c.diagnostics) := by
  have hnodup := nodup_declaredPlaces hts hp
  -- a declaration that has an entry is reported as the entry says
  have hreported : ∀ (v : VarDecl) (void : Issue),
      (v.position, v.annotationDiagnostics void) ∈ p.annotationReports →
      v.Reported void (annotatingAt v.position (p.checked entry).diagnostics) := by
    intro v void hv
    rw [diagnostics_checked, annotatingAt_eq hnodup entry hv]
    exact v.reported_annotationDiagnostics void
  refine ⟨p.annotate, p.checked entry, p.check_eq entry,
    fun v hv ↦ hreported v _ (mem_annotationReports_of_global hv), fun v hv ↦ ?_,
    fun f hf ↦ ⟨fun v hv ↦ hreported v _ (mem_annotationReports_of_param hf hv),
      fun v hv ↦ hreported v _ (mem_annotationReports_of_local hf hv)⟩⟩
  -- the place of a global that is skipped is not among those of the list
  rw [diagnostics_checked, annotatingAt, about_annotating]
  refine p.located_annotationReports.filter_eq_nil fun hx ↦ ?_
  exact (List.nodup_append.1 (nodup_annotationReports hnodup)).2.2 _ (List.mem_map_of_mem hv) _ hx
    rfl

/-! ## A text with names that are declared twice

The same pair of annotations twice, once on globals and once on locals.  The check reports the
second local and not the second global. -/

/-- A text with two global variables `g` and two local variables `x`, where the second of each is
`Void`. -/
def declaredTwice : String :=
  "var Int g;\nvar Void g;\nfunc main() Void \x7b var Int x; var Void x; \x7d"

/-- The tokens of `Program.declaredTwice`. -/
def declaredTwiceTokens : List Token :=
  [⟨.varWord, "var", ⟨1, 1⟩, ⟨1, 4⟩⟩, ⟨.identifier, "Int", ⟨1, 5⟩, ⟨1, 8⟩⟩,
    ⟨.identifier, "g", ⟨1, 9⟩, ⟨1, 10⟩⟩, ⟨.semicolon, ";", ⟨1, 10⟩, ⟨1, 11⟩⟩,
    ⟨.varWord, "var", ⟨2, 1⟩, ⟨2, 4⟩⟩, ⟨.identifier, "Void", ⟨2, 5⟩, ⟨2, 9⟩⟩,
    ⟨.identifier, "g", ⟨2, 10⟩, ⟨2, 11⟩⟩, ⟨.semicolon, ";", ⟨2, 11⟩, ⟨2, 12⟩⟩,
    ⟨.funcWord, "func", ⟨3, 1⟩, ⟨3, 5⟩⟩, ⟨.identifier, "main", ⟨3, 6⟩, ⟨3, 10⟩⟩,
    ⟨.openParen, "(", ⟨3, 10⟩, ⟨3, 11⟩⟩, ⟨.closeParen, ")", ⟨3, 11⟩, ⟨3, 12⟩⟩,
    ⟨.identifier, "Void", ⟨3, 13⟩, ⟨3, 17⟩⟩, ⟨.openCurly, "\x7b", ⟨3, 18⟩, ⟨3, 19⟩⟩,
    ⟨.varWord, "var", ⟨3, 20⟩, ⟨3, 23⟩⟩, ⟨.identifier, "Int", ⟨3, 24⟩, ⟨3, 27⟩⟩,
    ⟨.identifier, "x", ⟨3, 28⟩, ⟨3, 29⟩⟩, ⟨.semicolon, ";", ⟨3, 29⟩, ⟨3, 30⟩⟩,
    ⟨.varWord, "var", ⟨3, 31⟩, ⟨3, 34⟩⟩, ⟨.identifier, "Void", ⟨3, 35⟩, ⟨3, 39⟩⟩,
    ⟨.identifier, "x", ⟨3, 40⟩, ⟨3, 41⟩⟩, ⟨.semicolon, ";", ⟨3, 41⟩, ⟨3, 42⟩⟩,
    ⟨.closeCurly, "\x7d", ⟨3, 43⟩, ⟨3, 44⟩⟩, Token.endAt ⟨3, 44⟩]

/-- The function of `Program.declaredTwice`. -/
def declaredTwiceMain : FnDecl :=
  ⟨"main", [], "Void", ⟨⟨3, 18⟩, [⟨"x", "Int", ⟨3, 20⟩⟩, ⟨"x", "Void", ⟨3, 31⟩⟩], []⟩, ⟨3, 1⟩⟩

/-- The program of `Program.declaredTwice`. -/
def declaredTwiceProgram : Program :=
  ⟨[.global ⟨"g", "Int", ⟨1, 1⟩⟩, .global ⟨"g", "Void", ⟨2, 1⟩⟩, .function declaredTwiceMain]⟩

theorem scan_declaredTwice : Token.scan declaredTwice = .ok declaredTwiceTokens := by
  decide +kernel

theorem ofTokens_declaredTwice : ofTokens declaredTwiceTokens = .ok declaredTwiceProgram := rfl

/-- The second `x` is reported to be `Void`, and the second `g` is not. -/
theorem annotations_reported_declaredTwice :
    Token.scan declaredTwice = .ok declaredTwiceTokens ∧
    ofTokens declaredTwiceTokens = .ok declaredTwiceProgram ∧
    ∃ q c, declaredTwiceProgram.check "main" = .ok (q, c) ∧
      annotatingAt ⟨2, 1⟩ c.diagnostics = [] ∧
      VarDecl.Reported (.voidVariable "x") ⟨"x", "Void", ⟨3, 31⟩⟩
        (annotatingAt ⟨3, 31⟩ c.diagnostics) := by
  obtain ⟨q, c, hcheck, -, hrepeats, hinstalled⟩ :=
    annotations_reported scan_declaredTwice ofTokens_declaredTwice "main"
  have hregistry : (declaredTwiceProgram.check "main").map (·.2.registry)
      = .ok declaredTwiceProgram.registry := rfl
  rw [hcheck] at hregistry
  have hmain : declaredTwiceMain ∈ declaredTwiceProgram.installed c.registry := by
    have hc : c.registry = declaredTwiceProgram.registry := Except.ok.inj hregistry
    rw [hc]
    exact List.mem_singleton.2 rfl
  exact ⟨scan_declaredTwice, ofTokens_declaredTwice, q, c, hcheck,
    hrepeats ⟨"g", "Void", ⟨2, 1⟩⟩ (List.mem_singleton.2 rfl),
    (hinstalled _ hmain).2 ⟨"x", "Void", ⟨3, 31⟩⟩ (by decide)⟩

/-- A global variable that is `Void` is not reported to be so, because its name is taken. -/
theorem check_globalTwice : Token.scan declaredTwice = .ok declaredTwiceTokens ∧
    ofTokens declaredTwiceTokens = .ok declaredTwiceProgram ∧
    ∃ q c, declaredTwiceProgram.check "main" = .ok (q, c) ∧
      ∃ v ∈ declaredTwiceProgram.globals,
        ¬ v.Reported (.voidVariable v.name) (annotatingAt v.position c.diagnostics) := by
  refine ⟨scan_declaredTwice, ofTokens_declaredTwice, _, _, check_eq _ _,
    ⟨"g", "Void", ⟨2, 1⟩⟩, ?_, fun h ↦ ?_⟩
  · exact List.mem_cons_of_mem _ (List.mem_singleton.2 rfl)
  · have hnil : annotatingAt ⟨2, 1⟩ (declaredTwiceProgram.diagnostics "main") = [] := by decide
    rw [diagnostics_checked, hnil] at h
    cases h with
    | @value t h =>
      obtain rfl : t = .void := Option.some_inj.1 (Ty.ofName?_eq_some_iff.2 h.1).symm
      exact h.2 rfl

end Program

end Typewright
