import Typewright.Proofs.Agreement
import Typewright.Proofs.Visits

/-!
# What a check cannot tell

The labels on a tree are its places, its types and its names.  A check reads the places and writes
the types; names it only compares, with each other and with the few that the language knows.  So it
cannot tell a tree from one with other labels, as long as the places are kept, different names stay
different and the names of the language stay what they are: `Relabel.Faithful`.

All that a check keeps can be given the new names (`Site.rename`, `Registry.rename`), and so can all
that it logs (`Event.rename`).  With the new names the check of the relabelled tree logs what the
check of the tree does:

* `Expr.log_relabel` for expressions,
* `Stmt.events_relabel` for statements and blocks,
* `FnDecl.events_relabel` for functions,
* `Program.events_relabel` for programs.

## Two uses of one theorem

A relabelling that only drops types is faithful, and so is one that only gives new names.  The first
one shows that a check never reads a type that is on the tree (`Idempotence`), the second one that
it has no use for names but to tell them apart (`Renaming`).  Proved for each of them alone, the two
would be the same walk through the tree twice.

What a check *writes* is not treated here, since the two differ in it.  Where types are dropped they
are dropped from what the check gives as well, also from a value that it does not visit; where names
are changed the types on such a value stay.

## How the proof is laid out

Everything a check does is a function of its tables, so a proof for one function of the check has
the form `F (renamed arguments) = renamed (F arguments)`.  There is one such lemma for each
function, in the order in which they are built on each other: lookups, rules, expressions,
declarations, statements, functions, programs.  If a function of the check changes, so does the
lemma with its name.  Injectivity is used for lookups only, and that some names are kept for the
rules that compare with them.
-/

set_option autoImplicit false

namespace Typewright

/-- The labels are changed in such a way that a check cannot tell.  What is asked of the types on
nodes is nothing, and this is where it is seen that a check does not read them. -/
structure Relabel.Faithful (r : Relabel) : Prop where
  /-- The place of an expression is kept; the type that is noted next to it may be any. -/
  note : ∀ n, (r.note n).position = n.position
  /-- The places of statements and declarations are kept. -/
  position : ∀ p, r.position p = p
  /-- Different names stay different.  Without this a renamed scope could hide an entry. -/
  injective : Function.Injective r.name
  /-- The names of the types are kept. -/
  ty : ∀ t : Ty, r.name t.name = t.name
  /-- The name of the function for output is kept. -/
  print : r.name printName = printName

/-! ## New names

Renaming of all that has names in it: the tables of a check, its rulings and its log.  Types,
numbers and places are left as they are. -/

/-- The issue with other names in it.  Words of the language that an issue quotes, such as operators
and the names of statements, are no names of the program and stay. -/
def Issue.rename (f : String → String) : Issue → Issue
  | functionAlreadyDeclared g => functionAlreadyDeclared (f g)
  | globalAlreadyDeclared x => globalAlreadyDeclared (f x)
  | localAlreadyDeclared x => localAlreadyDeclared (f x)
  | duplicateParameter g x => duplicateParameter (f g) (f x)
  | voidParameter g x => voidParameter (f g) (f x)
  | voidVariable x => voidVariable (f x)
  | unknownType typeName => unknownType (f typeName)
  | returnTypeIsPrint g => returnTypeIsPrint (f g)
  | missingEntry entry => missingEntry (f entry)
  | entryHasParameters entry => entryHasParameters (f entry)
  | entryReturnType entry => entryReturnType (f entry)
  | variableNotDeclared x => variableNotDeclared (f x)
  | targetNotDeclared x => targetNotDeclared (f x)
  | functionNotDeclared g => functionNotDeclared (f g)
  | wrongArgumentCount g expected received => wrongArgumentCount (f g) expected received
  | argumentMismatch g index expected received => argumentMismatch (f g) index expected received
  | returnValueInVoid g => returnValueInVoid (f g)
  | missingReturnValue g expected => missingReturnValue (f g) expected
  | returnMismatch g expected received => returnMismatch (f g) expected received
  -- the others have no name of the program in them
  | i => i

/-- The diagnostic with other names in it. -/
def Diagnostic.rename (f : String → String) (d : Diagnostic) : Diagnostic :=
  { d with issue := d.issue.rename f }

/-- The event with other names in it. -/
def Event.rename (f : String → String) : Event → Event
  | installingFunction g p => installingFunction (f g) p
  | installingGlobal x p => installingGlobal (f x) p
  | skippingFunction g p => skippingFunction (f g) p
  | checkingFunction g p => checkingFunction (f g) p
  | checkedFunction g n => checkedFunction (f g) n
  | declaringLocal x p => declaringLocal (f x) p
  | reported d => reported (d.rename f)
  | e => e

/-- The scope with other names in it. -/
def Scope.rename (f : String → String) (s : Scope) : Scope := s.map fun b ↦ (f b.1, b.2)

/-- The scopes with other names in them. -/
def Scopes.rename (f : String → String) (s : Scopes) : Scopes := ⟨s.frames.map (Scope.rename f)⟩

/-- The signature with other names in it.  The types of the parameters are types already and have no
name left; the annotation of the result is still a name. -/
def Signature.rename (f : String → String) (s : Signature) : Signature :=
  { s with name := f s.name, returnType := f s.returnType }

/-- The registry with other names in it. -/
def Registry.rename (f : String → String) (r : Registry) : Registry :=
  ⟨r.signatures.map (Signature.rename f)⟩

/-- The context with other names in it. -/
def Context.rename (f : String → String) (Γ : Context) : Context :=
  ⟨Γ.scopes.rename f, Γ.registry.rename f⟩

/-- The site with other names in it.  The number of loops around has nothing to do with names. -/
def Site.rename (f : String → String) (σ : Site) : Site where
  scopes := σ.scopes.rename f
  registry := σ.registry.rename f
  function := σ.function.map f
  loops := σ.loops

/-- The ruling with other names in its issues. -/
def Ruling.rename (f : String → String) (g : Ruling) : Ruling :=
  { g with issues := g.issues.map (Issue.rename f) }

section Names

variable (f : String → String)

/-! ### Logs with new names

These hold of any function on names, also of one that is not injective.  They only say that a log is
renamed event by event. -/

/-- The diagnostics of a renamed log are the renamed diagnostics of the log. -/
theorem Event.diagnostics_rename (log : List Event) :
    diagnostics (log.map (rename f)) = (diagnostics log).map (Diagnostic.rename f) := by
  rw [diagnostics, diagnostics, List.filterMap_map, List.map_filterMap]
  refine List.filterMap_congr fun e _ ↦ ?_
  cases e <;> rfl

/-- The report of a renamed issue is the renamed report. -/
theorem reports_rename (i : Option Issue) (p : Position) :
    reports (i.map (Issue.rename f)) p = (reports i p).map (Event.rename f) := by
  cases i <;> rfl

theorem Ruling.events_rename (g : Ruling) (p : Position) :
    (g.rename f).events p = (g.events p).map (Event.rename f) := by
  rw [events, events, rename, List.map_map, List.map_map]
  rfl

@[simp] theorem Scopes.depth_rename (s : Scopes) : (s.rename f).depth = s.depth :=
  List.length_map _

/-- The events at the borders of a scope give its depth and no name. -/
theorem Site.inScope_rename (σ : Site) (inner : List Event) :
    (σ.rename f).inScope (inner.map (Event.rename f))
      = (σ.inScope inner).map (Event.rename f) := by
  simp [inScope, rename, Event.rename]

theorem Registry.size_rename (r : Registry) : (r.rename f).size = r.size :=
  List.length_map _

end Names

/-! ## Looking up names

A table with new names is asked for a new name.  Because different names get different ones, the
entry that is found is the same. -/

section Injective

variable {f : String → String} (hf : Function.Injective f)

include hf

/-- A name that is looked for in a scope is found under its new name.  An entry in front of it does
not get in the way, since it has a different name before and after. -/
theorem Scope.lookup_rename (s : Scope) (x : String) : (s.rename f).lookup (f x) = s.lookup x := by
  induction s with
  | nil => rfl
  | cons b s ih =>
    obtain ⟨y, b⟩ := b
    have heq : (f x == f y) = (x == y) := by
      rw [Bool.eq_iff_iff, beq_iff_eq, beq_iff_eq]
      exact hf.eq_iff
    rw [rename, List.map_cons, List.lookup_cons, List.lookup_cons, heq]
    cases x == y with
    | true => rfl
    | false => exact ih

/-- So it is in a stack of scopes: each scope has an entry for the new name exactly if it had one
for the name, so the search stops at the same scope. -/
theorem Scopes.lookup_rename (s : Scopes) (x : String) :
    (s.rename f).lookup (f x) = s.lookup x := by
  rw [lookup, lookup, rename, List.findSome?_map]
  exact congrArg (s.frames.findSome? ·) (funext fun g ↦ g.lookup_rename hf x)

/-- A function is found under its new name, with new names in its signature. -/
theorem Registry.get?_rename (r : Registry) (x : String) :
    (r.rename f).get? (f x) = (r.get? x).map (Signature.rename f) := by
  have heq : (fun s : Signature ↦ decide (f s.name = f x)) = fun s ↦ decide (s.name = x) :=
    funext fun s ↦ decide_eq_decide.2 hf.eq_iff
  rw [get?, get?, rename, List.find?_map]
  exact congrArg (fun q ↦ (r.signatures.find? q).map (Signature.rename f)) heq

theorem Registry.contains_rename (r : Registry) (x : String) :
    (r.rename f).contains (f x) = r.contains x := by
  rw [contains, contains, r.get?_rename hf, Option.isSome_map]

/-- A function is installed under its new name exactly if it was under its name, and its number is
the same. -/
theorem Registry.isInstalled_rename (r : Registry) (x : String) (i : Nat) :
    (r.rename f).isInstalled (f x) i = r.isInstalled x i := by
  rw [isInstalled, isInstalled, r.get?_rename hf]
  cases r.get? x <;> rfl

/-- Renaming commutes with the installation of one signature. -/
theorem Registry.install_rename (r : Registry) (s : Signature) :
    (r.install s).rename f = (r.rename f).install (s.rename f) := by
  have heq : (fun t : Signature ↦ decide (f t.name ≠ f s.name))
      = fun t ↦ decide (t.name ≠ s.name) :=
    funext fun t ↦ decide_eq_decide.2 hf.ne_iff
  rw [install, install, rename, rename, List.map_append, List.filter_map]
  exact congrArg (fun q ↦ (⟨(r.signatures.filter q).map (Signature.rename f) ++ [s.rename f]⟩ :
    Registry)) heq.symm

end Injective

variable {r : Relabel} (h : r.Faithful)

namespace Relabel.Faithful

include h

/-- A name becomes one that is kept only if it is that name. -/
theorem name_eq_iff {k : String} (hk : r.name k = k) (x : String) : r.name x = k ↔ x = k := by
  constructor
  · exact fun hx ↦ h.injective (hx.trans hk.symm)
  · rintro rfl
    exact hk

/-- A name stands for the same type as before, or for none as before: the names of types are kept,
and no other name becomes one of them. -/
theorem ofName? (x : String) : Ty.ofName? (r.name x) = Ty.ofName? x := by
  refine Option.ext fun t ↦ ?_
  rw [Ty.ofName?_eq_some_iff, Ty.ofName?_eq_some_iff, h.name_eq_iff (h.ty t)]

theorem ofVariable? (x : String) : Ty.ofVariable? (r.name x) = Ty.ofVariable? x := by
  rw [Ty.ofVariable?, Ty.ofVariable?, h.ofName?]

/-- The signature of a function with new names has the same types.  Those of the parameters come
from their annotations, which name the same types as before or none as before. -/
theorem ofDecl (f : FnDecl) (i : Nat) :
    Signature.ofDecl (f.relabel r) i = (Signature.ofDecl f i).rename r.name := by
  have hparams : (f.params.map (VarDecl.relabel r)).map (fun v ↦ Ty.ofVariable? v.typeName)
      = f.params.map fun v ↦ Ty.ofVariable? v.typeName := by
    rw [List.map_map]
    exact List.map_congr_left fun v _ ↦ h.ofVariable? v.typeName
  rw [Signature.ofDecl, Signature.ofDecl, FnDecl.relabel, Signature.rename, hparams, h.position]

end Relabel.Faithful

/-! ## Rules

A rule sees types, and names only to put them into issues.  A call is the exception, since it asks
for the function for output first; it needs that this name is kept, and so do the rules of
annotations with the names of types. -/

/-- All rules for operators are of this form, and renaming goes through to the issue. -/
theorem Ruling.rename_acceptIf (f : String → String) (ok : Bool) (t : Ty) (i : Issue) :
    (acceptIf ok t i).rename f = acceptIf ok t (i.rename f) := by
  cases ok <;> rfl

namespace Rule

section Names

variable (f : String → String)

theorem rename_var (x : String) (b : Option Binding) :
    (var x b).rename f = var (f x) b := by
  cases b <;> rfl

/-- The issue of an assignment quotes two types and no name. -/
theorem rename_assign (b : Binding) (received : Option Ty) :
    (assign b received).rename f = assign b received := by
  unfold assign
  split
  · rfl
  · rfl
  · exact Ruling.rename_acceptIf f _ _ _

theorem rename_binary (op : BinaryOp) (left right : Ty) :
    (binary op left right).rename f = binary op left right := by
  cases op <;> exact Ruling.rename_acceptIf f _ _ _

theorem rename_unary (op : UnaryOp) (operand : Ty) :
    (unary op operand).rename f = unary op operand := by
  cases op <;> exact Ruling.rename_acceptIf f _ _ _

theorem rename_print (args : List (Option Ty)) : (print args).rename f = print args := by
  unfold print
  split
  · rfl
  · exact Ruling.rename_acceptIf f _ _ _
  · rfl

/-- The mismatches of arguments quote the name of the function that is called, once for each. -/
theorem map_mismatches (function : String) (params : List (Option Ty)) :
    ∀ (n : Nat) (args : List (Option Ty)),
      (mismatches function n params args).map (Issue.rename f)
        = mismatches (f function) n params args := by
  induction params with
  | nil => exact fun _ _ ↦ rfl
  | cons p params ih =>
    intro n args
    cases args with
    | nil => cases p <;> rfl
    | cons a args =>
      cases p with
      | none => exact ih (n + 1) args
      | some expected =>
        cases a with
        | none => exact ih (n + 1) args
        | some received =>
          show (_ ++ mismatches function (n + 1) params args).map _
            = _ ++ mismatches (f function) (n + 1) params args
          rw [List.map_append, ih, apply_ite (List.map _)]
          rfl

theorem map_predicateIssue? (statement : String) (t : Option Ty) :
    (predicateIssue? statement t).map (Issue.rename f) = predicateIssue? statement t := by
  unfold predicateIssue?
  split <;> rfl

/-- The issues of a `return` quote the function that it is in. -/
theorem map_returnIssue? (function : String) (expected : Option Ty) (given : Bool)
    (received : Option Ty) :
    (returnIssue? function expected given received).map (Issue.rename f)
      = returnIssue? (f function) expected given received := by
  unfold returnIssue?
  split <;> try split
  all_goals rfl

theorem map_jumpIssue? (loops : Nat) (j : Jump) :
    (jumpIssue? loops j).map (Issue.rename f) = jumpIssue? loops j := by
  unfold jumpIssue?
  split <;> rfl

end Names

include h

/-! ### Rules that look at names

Most rules are about types, and copy names into their issues.  The rule for calls looks a name up
and compares it with that of the function for output, and annotations are compared with the names of
types.  Here the relabelling has to be faithful. -/

theorem rename_applied (s : Signature) (x : String) (args : List (Option Ty)) :
    (applied s x args).rename r.name = applied (s.rename r.name) (r.name x) args := by
  have hresult : (s.rename r.name).result? = s.result? := h.ofName? s.returnType
  have hparams : (s.rename r.name).params = s.params := rfl
  rw [applied, applied, Ruling.rename, hresult, hparams, apply_ite (List.map _), map_mismatches]
  rfl

/-- A call reports the same with new names.  The name of the function for output has to be told from
all others before and after, so it is not enough that it is kept: no other name may become it, and
none does by injectivity. -/
theorem rename_call (g : Registry) (x : String) (args : List (Option Ty)) :
    (call g x args).rename r.name = call (g.rename r.name) (r.name x) args := by
  rw [call, call]
  by_cases hx : x = printName
  · rw [if_pos hx, if_pos ((h.name_eq_iff h.print x).2 hx), rename_print]
  · rw [if_neg hx, if_neg (mt (h.name_eq_iff h.print x).1 hx), g.get?_rename h.injective]
    cases g.get? x with
    | none => rfl
    | some s => exact rename_applied h s x args

/-- The annotation of a variable reports the same with new names.  An annotation that names no type
is quoted, and it is a name like any other. -/
theorem map_variableIssue? (typeName : String) (void : Issue) :
    (variableIssue? typeName void).map (Issue.rename r.name)
      = variableIssue? (r.name typeName) (void.rename r.name) := by
  rw [variableIssue?, variableIssue?, h.ofName?]
  split <;> rfl

/-- The annotation of a result reports the same with new names. -/
theorem map_resultIssue? (function typeName : String) :
    (resultIssue? function typeName).map (Issue.rename r.name)
      = resultIssue? (r.name function) (r.name typeName) := by
  rw [resultIssue?, resultIssue?, h.ofName?]
  by_cases ht : typeName = printName
  · rw [if_pos ht, if_pos ((h.name_eq_iff h.print typeName).2 ht)]
    rfl
  · rw [if_neg ht, if_neg (mt (h.name_eq_iff h.print typeName).1 ht)]
    split <;> rfl

end Rule

/-! ## Expressions

By `Expr.induct_visited` there is one case only.  It needs two facts about a node, that the same
parts are visited and that the rule says the same, and both are splits over the kinds of nodes
without any recursion. -/

namespace Expr

theorem note_relabel (r : Relabel) (e : Expr) : (e.relabel r).note = r.note e.note := by
  cases e <;> rfl

theorem isAbsent_relabel (r : Relabel) (e : Expr) : (e.relabel r).isAbsent = e.isAbsent := by
  cases e <;> rfl

include h

/-- A node has the place it had. -/
theorem position_relabel (e : Expr) : (e.relabel r).position = e.position := by
  rw [position, position, note_relabel, h.note]

/-- The parts that are visited are the same. -/
theorem visited_relabel (Γ : Context) (e : Expr) :
    (e.relabel r).visited (Γ.rename r.name) = (e.visited Γ).map (relabel r) := by
  cases e with
  | assign n x e =>
    have hx : (Γ.rename r.name).scopes.lookup (r.name x) = Γ.scopes.lookup x :=
      Γ.scopes.lookup_rename h.injective x
    rw [relabel, visited, visited, hx]
    split <;> rfl
  | call n f args => exact relabelAll_eq_map r args
  | _ => rfl

/-- The rule of a node says the same, if its parts have the same types.  This is stated for the
parts that are visited, as the rule of an assignment to an unknown name does not look at the
value. -/
theorem ruling_relabel {Γ : Context} {e : Expr}
    (hparts : ∀ f ∈ e.visited Γ, ((f.relabel r).check (Γ.rename r.name)).ty = (f.check Γ).ty) :
    (e.relabel r).ruling (Γ.rename r.name) = (e.ruling Γ).rename r.name := by
  have hlookup : ∀ x, (Γ.rename r.name).scopes.lookup (r.name x) = Γ.scopes.lookup x :=
    fun x ↦ Γ.scopes.lookup_rename h.injective x
  cases e with
  | int | float | string | bool | absent => rfl
  | var n x => rw [relabel, ruling, ruling, hlookup, Rule.rename_var]
  | assign n x e =>
    rw [relabel, ruling, ruling, hlookup]
    cases hx : Γ.scopes.lookup x with
    | none => rfl
    -- the value is visited only if the target is known
    | some b =>
      rw [visited_assign_of_some hx, List.forall_mem_singleton] at hparts
      simp only [hparts, Rule.rename_assign]
  | binary n e op f =>
    rw [visited_binary, List.forall_mem_cons, List.forall_mem_singleton] at hparts
    rw [relabel, ruling, ruling, hparts.1, hparts.2]
    split
    · rw [Rule.rename_binary]
    · rfl
  | unary n op e =>
    rw [visited_unary, List.forall_mem_singleton] at hparts
    rw [relabel, ruling, ruling, hparts]
    split
    · rw [Rule.rename_unary]
    · rfl
  | call n f args =>
    have hargs : args.map (fun a ↦ ((a.relabel r).check (Γ.rename r.name)).ty)
        = args.map fun a ↦ (a.check Γ).ty := List.map_congr_left hparts
    rw [relabel, ruling, ruling, relabelAll_eq_map, List.map_map, Rule.rename_call h, ← hargs]
    rfl
  | actual n e =>
    rw [visited_actual, List.forall_mem_singleton] at hparts
    rw [relabel, ruling, ruling, hparts]
    rfl

/-- **An expression with other labels has the same type, and the same is logged.** -/
theorem check_relabel (Γ : Context) (e : Expr) :
    ((e.relabel r).check (Γ.rename r.name)).ty = (e.check Γ).ty ∧
    ((e.relabel r).check (Γ.rename r.name)).log = (e.check Γ).log.map (Event.rename r.name) := by
  induction e using induct_visited Γ with
  | node e ih =>
    -- the rule of the node needs the types of the parts, and the log of the node their logs
    have hruling := ruling_relabel h fun f hf ↦ (ih f hf).1
    have hparts := List.flatMap_congr fun f hf ↦ (ih f hf).2
    constructor
    · rw [ty_check, ty_check, hruling]
      rfl
    · rw [log_check, log_check, hruling, visited_relabel h, position_relabel h, List.flatMap_map,
        hparts, Ruling.events_rename, List.map_cons, List.map_append, List.map_flatMap]
      rfl

theorem ty_relabel (Γ : Context) (e : Expr) :
    ((e.relabel r).check (Γ.rename r.name)).ty = (e.check Γ).ty :=
  (e.check_relabel h Γ).1

theorem log_relabel (Γ : Context) (e : Expr) :
    ((e.relabel r).check (Γ.rename r.name)).log = (e.check Γ).log.map (Event.rename r.name) :=
  (e.check_relabel h Γ).2

end Expr

/-! ## Declarations

The loops over declarations keep a scope, and step by step the scope with new names is the scope of
the loop over the new names. -/

namespace Scope

include h

/-- Declaring one variable: its new name is taken exactly if its name was. -/
theorem declare_relabel (s : Scope) (v : VarDecl) :
    (s.rename r.name).declare (v.relabel r) = (s.declare v).rename r.name := by
  rw [declare, declare, VarDecl.relabel, s.lookup_rename h.injective, h.ofVariable?]
  split <;> rfl

/-- The scope after declarations with new names is the scope with new names. -/
theorem declareAll_relabel (vs : List VarDecl) : ∀ s : Scope,
    (s.rename r.name).declareAll (vs.map (VarDecl.relabel r))
      = (s.declareAll vs).rename r.name := by
  induction vs with
  | nil => exact fun _ ↦ rfl
  | cons v vs ih =>
    intro s
    show ((s.rename r.name).declare (v.relabel r)).declareAll _
      = ((s.declare v).declareAll vs).rename _
    rw [s.declare_relabel h, ih]

/-- What is reported about a variable inside of a function, as a parameter or in a block. -/
theorem declareEvents_relabel (s : Scope) (v : VarDecl) (void duplicate : Issue) :
    (s.rename r.name).declareEvents (v.relabel r) (void.rename r.name) (duplicate.rename r.name)
      = (s.declareEvents v void duplicate).map (Event.rename r.name) := by
  rw [declareEvents, declareEvents, VarDecl.relabel, s.lookup_rename h.injective, h.position,
    ← Rule.map_variableIssue? h, List.map_append, ← reports_rename, ← reports_rename]
  split <;> rfl

/-- The loop over the variables of a block.  The induction carries the scope, which is renamed from
one variable to the next. -/
theorem localEvents_relabel (vs : List VarDecl) : ∀ s : Scope,
    (s.rename r.name).localEvents (vs.map (VarDecl.relabel r))
      = (s.localEvents vs).map (Event.rename r.name) := by
  induction vs with
  | nil => exact fun _ ↦ rfl
  | cons v vs ih =>
    intro s
    have hv := s.declareEvents_relabel h v (.voidVariable v.name) (.localAlreadyDeclared v.name)
    rw [List.map_cons, localEvents, localEvents, s.declare_relabel h, ih, List.map_cons,
      List.map_append, ← hv, Event.rename, ← h.position v.position]
    rfl

theorem paramEvents_relabel (function : String) (vs : List VarDecl) : ∀ s : Scope,
    (s.rename r.name).paramEvents (r.name function) (vs.map (VarDecl.relabel r))
      = (s.paramEvents function vs).map (Event.rename r.name) := by
  induction vs with
  | nil => exact fun _ ↦ rfl
  | cons v vs ih =>
    intro s
    have hv := s.declareEvents_relabel h v (.voidParameter function v.name)
      (.duplicateParameter function v.name)
    rw [List.map_cons, paramEvents, paramEvents, s.declare_relabel h, ih, List.map_append, ← hv]
    rfl

theorem globalIssue?_relabel (s : Scope) (v : VarDecl) :
    (s.rename r.name).globalIssue? (v.relabel r)
      = (s.globalIssue? v).map (Issue.rename r.name) := by
  rw [globalIssue?, globalIssue?, VarDecl.relabel, s.lookup_rename h.injective]
  cases (s.lookup v.name).isSome with
  | true => rfl
  | false => exact (Rule.map_variableIssue? h v.typeName (.voidVariable v.name)).symm

/-- The loop over the global variables. -/
theorem globalEvents_relabel (vs : List VarDecl) : ∀ s : Scope,
    (s.rename r.name).globalEvents (vs.map (VarDecl.relabel r))
      = (s.globalEvents vs).map (Event.rename r.name) := by
  induction vs with
  | nil => exact fun _ ↦ rfl
  | cons v vs ih =>
    intro s
    rw [List.map_cons, globalEvents, globalEvents, s.declare_relabel h, ih,
      s.globalIssue?_relabel h, List.map_cons, List.map_append, ← reports_rename, Event.rename,
      VarDecl.relabel, h.position]

theorem countGlobals_relabel (vs : List VarDecl) : ∀ s : Scope,
    (s.rename r.name).countGlobals (vs.map (VarDecl.relabel r)) = s.countGlobals vs := by
  induction vs with
  | nil => exact fun _ ↦ rfl
  | cons v vs ih =>
    intro s
    rw [List.map_cons, countGlobals, countGlobals, s.declare_relabel h, ih, VarDecl.relabel,
      s.lookup_rename h.injective, h.ofVariable?]

end Scope

/-! ## Statements

Inside a function.  This has to be asked for, because a `return` outside of all functions would be
reported with an empty name for the function, and that is not a name that could be changed. -/

namespace Expr

include h

/-- A condition that is not `bool` is reported with the name of the statement, which is no name of
the program. -/
theorem predicateEvents_relabel (Γ : Context) (statement : String) (p : Position) (e : Expr) :
    (e.relabel r).predicateEvents (Γ.rename r.name) statement p
      = (e.predicateEvents Γ statement p).map (Event.rename r.name) := by
  rw [predicateEvents, predicateEvents, e.ty_relabel h, e.log_relabel h, List.map_append,
    ← reports_rename, Rule.map_predicateIssue?]

theorem loopConditionEvents_relabel (Γ : Context) (p : Position) (e : Expr) :
    (e.relabel r).loopConditionEvents (Γ.rename r.name) p
      = (e.loopConditionEvents Γ p).map (Event.rename r.name) := by
  rw [loopConditionEvents, loopConditionEvents, isAbsent_relabel, e.log_relabel h,
    e.predicateEvents_relabel h, ← apply_ite (List.map _)]

/-- A `return` names the function that it is in. -/
theorem returnEvents_relabel {σ : Site} (hσ : σ.function.isSome) (ret : Option Ty) (p : Position)
    (e : Expr) : (e.relabel r).returnEvents (σ.rename r.name) ret p
      = (e.returnEvents σ ret p).map (Event.rename r.name) := by
  have hfunction : (σ.rename r.name).function.getD "" = r.name (σ.function.getD "") := by
    obtain ⟨name, hname⟩ := Option.isSome_iff_exists.1 hσ
    rw [Site.rename, hname]
    rfl
  have hcontext : (σ.rename r.name).context = σ.context.rename r.name := rfl
  rw [returnEvents, returnEvents, hfunction, hcontext, isAbsent_relabel, e.ty_relabel h,
    e.log_relabel h, List.map_append, ← reports_rename, Rule.map_returnIssue?]

end Expr

include h

/-- **A statement with other labels logs the same**, and so does a block. -/
theorem Stmt.events_relabel (ret : Option Ty) :
    (∀ (s : Stmt) {σ : Site}, σ.function.isSome →
      (s.relabel r).events (σ.rename r.name) ret = (s.events σ ret).map (Event.rename r.name)) ∧
    ∀ (b : Block) {σ : Site}, σ.function.isSome →
      (b.relabel r).events (σ.rename r.name) ret = (b.events σ ret).map (Event.rename r.name) := by
  refine Stmt.induct ?block ?cond ?whileLoop ?forLoop ?ret ?jump ?expr ?body
  case block =>
    intro b ih σ hσ
    have hposition : (b.relabel r).position = b.position := by
      cases b
      exact h.position _
    rw [relabel, events, events, ih hσ, hposition]
    rfl
  case cond =>
    intro p c a b iha ihb σ hσ
    -- the scope around the branches is empty, and so it is after the renaming
    have hscope := iha (σ := σ.push []) hσ
    have hscope' := ihb (σ := σ.push []) hσ
    rw [relabel, events, events, h.position, List.map_cons, List.map_append,
      ← Site.inScope_rename, List.map_append, ← hscope, ← hscope',
      ← c.predicateEvents_relabel h]
    rfl
  case whileLoop =>
    intro p c b ih σ hσ
    rw [relabel, events, events, h.position, List.map_cons, List.map_append,
      ← ih (σ := σ.inLoop) hσ, ← c.predicateEvents_relabel h]
    rfl
  case forLoop =>
    intro p i c s b ih σ hσ
    rw [relabel, events, events, h.position, List.map_cons, List.map_append, List.map_append,
      List.map_append, ← ih (σ := σ.inLoop) hσ, ← i.log_relabel h, ← s.log_relabel h,
      ← c.loopConditionEvents_relabel h]
    rfl
  case ret =>
    intro p e σ hσ
    rw [relabel, events, events, h.position, List.map_cons, e.returnEvents_relabel h hσ]
    rfl
  case jump =>
    intro p j σ hσ
    rw [relabel, events, events, h.position, List.map_cons, ← reports_rename, Rule.map_jumpIssue?]
    rfl
  case expr =>
    intro e σ hσ
    rw [relabel, events, events, e.position_relabel h, List.map_cons, ← e.log_relabel h]
    rfl
  case body =>
    intro p vars ss ih σ hσ
    have hsite : (σ.rename r.name).push (Scope.declareAll [] (vars.map (VarDecl.relabel r)))
        = (σ.push (Scope.declareAll [] vars)).rename r.name :=
      congrArg (σ.rename r.name).push (Scope.declareAll_relabel h vars [])
    have hlocals : Scope.localEvents [] (vars.map (VarDecl.relabel r))
        = (Scope.localEvents [] vars).map (Event.rename r.name) :=
      Scope.localEvents_relabel h vars []
    rw [Block.relabel, Block.events, Block.events, ← Site.inScope_rename, List.map_append, hsite,
      hlocals, eventsAll_eq_flatMap, eventsAll_eq_flatMap, relabelAll_eq_map, List.flatMap_map,
      List.map_flatMap, List.flatMap_congr fun s hs ↦ ih s hs (σ := σ.push _) hσ]

/-! ## Functions

A function is checked at a site that it changes itself: its name and its parameters are added, and
both get new names on the way. -/

namespace FnDecl

theorem position_relabel (f : FnDecl) : (f.relabel r).position = f.position :=
  h.position f.position

/-- The scope of the parameters is the renamed scope. -/
theorem paramScope_relabel (f : FnDecl) :
    (f.relabel r).paramScope = f.paramScope.rename r.name :=
  Scope.declareAll_relabel h f.params []

/-- What is logged between the start and the end of the check of a function: the annotation of the
result, the parameters and the body, in a scope of their own. -/
theorem innerEvents_relabel (σ : Site) (f : FnDecl) :
    (f.relabel r).innerEvents (σ.rename r.name)
      = (f.innerEvents σ).map (Event.rename r.name) := by
  have hsite : ((σ.rename r.name).inFunction (f.relabel r).name).push (f.relabel r).paramScope
      = ((σ.inFunction f.name).push f.paramScope).rename r.name :=
    congrArg ((σ.rename r.name).inFunction (r.name f.name)).push (f.paramScope_relabel h)
  have hparams : Scope.paramEvents (f.relabel r).name [] (f.relabel r).params
      = (Scope.paramEvents f.name [] f.params).map (Event.rename r.name) :=
    Scope.paramEvents_relabel h f.name f.params []
  have hbody : (f.relabel r).body.events (((σ.inFunction f.name).push f.paramScope).rename r.name)
        (Ty.ofName? f.returnType)
      = (f.body.events ((σ.inFunction f.name).push f.paramScope)
          (Ty.ofName? f.returnType)).map (Event.rename r.name) :=
    (Stmt.events_relabel h _).2 f.body rfl
  have hresult : Rule.resultIssue? (f.relabel r).name (f.relabel r).returnType
      = (Rule.resultIssue? f.name f.returnType).map (Issue.rename r.name) :=
    (Rule.map_resultIssue? h f.name f.returnType).symm
  have hret : Ty.ofName? (f.relabel r).returnType = Ty.ofName? f.returnType :=
    h.ofName? f.returnType
  rw [innerEvents, innerEvents, hsite, hparams, hret, hbody, hresult, f.position_relabel h,
    reports_rename, ← List.map_append, Site.inScope_rename, List.map_append]

theorem events_relabel (σ : Site) (f : FnDecl) :
    (f.relabel r).events (σ.rename r.name) = (f.events σ).map (Event.rename r.name) := by
  rw [events, events, f.innerEvents_relabel h, Event.diagnostics_rename, List.length_map,
    f.position_relabel h, List.map_cons, List.map_append]
  rfl

end FnDecl

/-! ## Programs

The passes of a check, and then the check as a whole.  The numbers of diagnostics and of installed
declarations that are logged are the same, since nothing is added or left out. -/

namespace Registry

/-- A function is refused for the same reason as before. -/
theorem issue?_relabel (g : Registry) (f : FnDecl) :
    (g.rename r.name).issue? (f.relabel r) = (g.issue? f).map (Issue.rename r.name) := by
  have hname : (f.relabel r).name = r.name f.name := rfl
  rw [issue?, issue?, hname, g.contains_rename h.injective]
  by_cases hprint : f.name = printName
  · rw [if_pos hprint, if_pos ((h.name_eq_iff h.print f.name).2 hprint)]
    rfl
  · rw [if_neg hprint, if_neg (mt (h.name_eq_iff h.print f.name).1 hprint)]
    split <;> rfl

theorem declare_relabel (g : Registry) (f : FnDecl) (i : Nat) :
    (g.rename r.name).declare (f.relabel r) i = (g.declare f i).rename r.name := by
  rw [declare, declare, g.issue?_relabel h, h.ofDecl, ← g.install_rename h.injective]
  cases g.issue? f <;> rfl

/-- The registry after declarations with new names is the registry with new names. -/
theorem declareFrom_relabel (ds : List Decl) : ∀ (g : Registry) (i : Nat),
    (g.rename r.name).declareFrom i (ds.map (Decl.relabel r))
      = (g.declareFrom i ds).rename r.name := by
  induction ds with
  | nil => exact fun _ _ ↦ rfl
  | cons d ds ih =>
    intro g i
    cases d with
    | global v => exact ih g (i + 1)
    | function f =>
      rw [List.map_cons, Decl.relabel, declareFrom, declareFrom, g.declare_relabel h, ih]

/-- The pass that installs functions logs the same.  The induction carries the registry, as the
loops over variables carry a scope. -/
theorem installEvents_relabel (ds : List Decl) : ∀ (g : Registry) (i : Nat),
    (g.rename r.name).installEvents i (ds.map (Decl.relabel r))
      = (g.installEvents i ds).map (Event.rename r.name) := by
  induction ds with
  | nil => exact fun _ _ ↦ rfl
  | cons d ds ih =>
    intro g i
    cases d with
    | global v => exact ih g (i + 1)
    | function f =>
      rw [List.map_cons, Decl.relabel, installEvents, installEvents, g.declare_relabel h, ih,
        g.issue?_relabel h, f.position_relabel h, List.map_cons, List.map_append,
        ← reports_rename]
      rfl

/-- The entry function is looked for under its new name. -/
theorem entryEvents_relabel (g : Registry) (entry : String) :
    (g.rename r.name).entryEvents (r.name entry)
      = (g.entryEvents entry).map (Event.rename r.name) := by
  rw [entryEvents, entryEvents, g.get?_rename h.injective]
  cases g.get? entry with
  | none => rfl
  | some s =>
    -- the result is compared with the name of a type, and that name is kept
    have hvoid : (s.rename r.name).returnType = Ty.void.name ↔ s.returnType = Ty.void.name :=
      h.name_eq_iff (h.ty .void) s.returnType
    have hparams : (s.rename r.name).params = s.params := rfl
    have hposition : (s.rename r.name).position = s.position := rfl
    simp only [Option.map_some, hparams, hposition, hvoid, List.map_append, ← reports_rename,
      apply_ite (Option.map _), Option.map_none]
    rfl

end Registry

namespace Decl

theorem events_relabel (σ : Site) (i : Nat) (d : Decl) :
    (d.relabel r).events (σ.rename r.name) i = (d.events σ i).map (Event.rename r.name) := by
  cases d with
  | global v => rfl
  | function f =>
    have hinstalled : (σ.rename r.name).registry.isInstalled (f.relabel r).name i
        = σ.registry.isInstalled f.name i := σ.registry.isInstalled_rename h.injective f.name i
    rw [relabel, events, events, hinstalled, f.events_relabel h, f.position_relabel h]
    split <;> rfl

/-- The pass over the bodies logs the same. -/
theorem eventsFrom_relabel (σ : Site) (ds : List Decl) : ∀ i : Nat,
    eventsFrom (σ.rename r.name) i (ds.map (relabel r))
      = (eventsFrom σ i ds).map (Event.rename r.name) := by
  induction ds with
  | nil => exact fun _ ↦ rfl
  | cons d ds ih =>
    intro i
    rw [List.map_cons, eventsFrom, eventsFrom, d.events_relabel h, ih, List.map_append]

end Decl

namespace Program

theorem registry_relabel (p : Program) :
    (p.relabel r).registry = p.registry.rename r.name :=
  Registry.declareFrom_relabel h p.decls .empty 0

omit h in
theorem globals_relabel (r : Relabel) (p : Program) :
    (p.relabel r).globals = p.globals.map (VarDecl.relabel r) := by
  rw [globals, globals, relabel, List.filterMap_map, List.map_filterMap]
  refine List.filterMap_congr fun d _ ↦ ?_
  cases d <;> rfl

/-- Global variables are checked where all functions are installed under their new names. -/
theorem outerSite_relabel (p : Program) :
    (p.relabel r).outerSite = p.outerSite.rename r.name := by
  rw [outerSite, outerSite, p.registry_relabel h]
  rfl

/-- Functions are checked at the site with new names. -/
theorem site_relabel (p : Program) : (p.relabel r).site = p.site.rename r.name := by
  rw [site, site, p.outerSite_relabel h, globalScope, p.globals_relabel]
  exact congrArg (p.outerSite.rename r.name).push (Scope.declareAll_relabel h p.globals [])

theorem innerEvents_relabel (p : Program) (entry : String) :
    (p.relabel r).innerEvents (r.name entry)
      = (p.innerEvents entry).map (Event.rename r.name) := by
  have hinstall : Registry.empty.installEvents 0 (p.relabel r).decls
      = (Registry.empty.installEvents 0 p.decls).map (Event.rename r.name) :=
    Registry.installEvents_relabel h p.decls .empty 0
  have hglobals : Scope.globalEvents [] (p.globals.map (VarDecl.relabel r))
      = (Scope.globalEvents [] p.globals).map (Event.rename r.name) :=
    Scope.globalEvents_relabel h p.globals []
  have hcount : Scope.countGlobals [] (p.globals.map (VarDecl.relabel r))
      = Scope.countGlobals [] p.globals := Scope.countGlobals_relabel h p.globals []
  have hfunctions : Decl.eventsFrom (p.site.rename r.name) 0 (p.relabel r).decls
      = (Decl.eventsFrom p.site 0 p.decls).map (Event.rename r.name) :=
    Decl.eventsFrom_relabel h p.site p.decls 0
  simp only [innerEvents, List.map_append, hinstall, p.registry_relabel h, Registry.size_rename,
    p.registry.entryEvents_relabel h, p.globals_relabel, hglobals, hcount, p.site_relabel h,
    hfunctions]
  rfl

/-- **A program with other labels logs the same.** -/
theorem events_relabel (p : Program) (entry : String) :
    (p.relabel r).events (r.name entry) = (p.events entry).map (Event.rename r.name) := by
  rw [events, events, p.innerEvents_relabel h, Event.diagnostics_rename, List.length_map,
    List.map_append]
  rfl

end Program

end Typewright
