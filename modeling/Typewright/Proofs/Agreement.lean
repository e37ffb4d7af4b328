import Typewright.Proofs.StmtTyping

/-!
# Sites that agree

A check looks at its site only through what names stand for, and at a function that is called only
through its profile.  So sites that agree on these give the same types and the same events:
`Expr.check_congr`, `Stmt.annotate_congr` and `Stmt.events_congr`, and with them
`FnDecl.annotate_congr` and `FnDecl.events_congr`.

This is how two programs are compared.  Where the declarations of one are those of the other in
another order, or with the refused ones taken away, the tables of the two checks are not equal:
bindings stand at other places in a scope, and functions have other numbers.  But they agree
(`Program.agrees_site`), and then no body can tell them apart.
-/

set_option autoImplicit false

namespace Typewright

/-! ## Expressions

An expression asks a context for the binding of a variable and for the profile of a function.  Two
contexts that give the same answers are the same for it. -/

/-- Names stand for the same in both contexts, as far as an expression can tell. -/
structure Context.Agrees (Γ Δ : Context) : Prop where
  var : ∀ x, Δ.scopes.lookup x = Γ.scopes.lookup x
  fn : ∀ f, (Δ.registry.get? f).map Signature.profile = (Γ.registry.get? f).map Signature.profile

theorem Context.Agrees.push {Γ Δ : Context} (h : Γ.Agrees Δ) (f : Scope) :
    (Γ.push f).Agrees (Δ.push f) where
  var := by
    intro x
    simp only [Context.push, Scopes.lookup_push, h.var]
  fn := h.fn

/-- A call looks at the profile of the function only. -/
theorem Rule.call_congr {r r' : Registry} {f : String}
    (h : (r'.get? f).map Signature.profile = (r.get? f).map Signature.profile)
    (args : List (Option Ty)) : Rule.call r' f args = Rule.call r f args := by
  rw [call, call]
  cases hs : r.get? f with
  | none =>
    rw [hs, Option.map_none, Option.map_eq_none_iff] at h
    rw [h]
  | some s =>
    rw [hs, Option.map_some, Option.map_eq_some_iff] at h
    obtain ⟨s', hs', heq⟩ := h
    rw [Signature.profile, Signature.profile, Prod.mk.injEq] at heq
    simp only [hs', applied, Signature.result?, heq.1, heq.2]

/-- Contexts that agree give the same result for every expression. -/
theorem Expr.check_congr {Γ Δ : Context} (h : Γ.Agrees Δ) (e : Expr) : e.check Δ = e.check Γ := by
  induction e with
  | int | float | string | bool | absent => rfl
  | var n x => rw [check, check, h.var]
  | assign n x e ih => rw [check, check, h.var, ih]
  | binary n e op f ihe ihf => rw [check, check, ihe, ihf]
  | unary n op e ih => rw [check, check, ih]
  | call n f args ih =>
    have hargs : args.map (check Δ) = args.map (check Γ) := List.map_congr_left ih
    rw [check, check, checkAll_eq_map, checkAll_eq_map, hargs, Rule.call_congr (h.fn f)]
  | actual n e ih => rw [check, check, ih]

/-! ## Registries

Which declaration of a program a function is, its number, is not a part of what a call looks at, nor
of what is required of the entry function.  It changes when declarations are moved or taken away,
and nothing else does.  So registries are compared up to this number. -/

/-- The signature `t` is `s`, but for the number of the declaration. -/
def Signature.Renumbered (s t : Signature) : Prop := ∃ i : Nat, t = { s with index := i }

/-- A name stands for the same function in both registries, which may have another number. -/
def Registry.Agrees (r r' : Registry) : Prop :=
  ∀ x, Option.Rel Signature.Renumbered (r.get? x) (r'.get? x)

namespace Registry.Agrees

variable {r r' : Registry}

/-- A call cannot tell the registries apart. -/
theorem profile (h : r.Agrees r') (f : String) :
    (r'.get? f).map Signature.profile = (r.get? f).map Signature.profile := by
  have hrel := h f
  generalize r.get? f = s, r'.get? f = t at hrel
  cases hrel with
  | none => rfl
  | some hst =>
    obtain ⟨i, rfl⟩ := hst
    rfl

/-- Nor can the pass that looks for the entry function. -/
theorem entryEvents (h : r.Agrees r') (entry : String) :
    r'.entryEvents entry = r.entryEvents entry := by
  have hrel := h entry
  rw [Registry.entryEvents, Registry.entryEvents]
  generalize r.get? entry = s, r'.get? entry = t at hrel
  cases hrel with
  | none => rfl
  | some hst =>
    obtain ⟨i, rfl⟩ := hst
    rfl

end Registry.Agrees

/-! ## Sites

A statement also asks for the function and for the loops around, and its events tell how many scopes
are open. -/

/-- Nothing that a check does can tell the sites apart. -/
structure Site.Agrees (σ τ : Site) : Prop where
  context : σ.context.Agrees τ.context
  depth : τ.scopes.depth = σ.scopes.depth
  function : τ.function = σ.function
  loops : τ.loops = σ.loops

namespace Site.Agrees

variable {σ τ : Site}

theorem push (h : σ.Agrees τ) (f : Scope) : (σ.push f).Agrees (τ.push f) where
  context := h.context.push f
  depth := congrArg (· + 1) h.depth
  function := h.function
  loops := h.loops

theorem inLoop (h : σ.Agrees τ) : σ.inLoop.Agrees τ.inLoop where
  context := h.context
  depth := h.depth
  function := h.function
  loops := congrArg (· + 1) h.loops

theorem inFunction (h : σ.Agrees τ) (name : String) :
    (σ.inFunction name).Agrees (τ.inFunction name) where
  context := h.context
  depth := h.depth
  function := rfl
  loops := rfl

theorem inScope (h : σ.Agrees τ) (inner : List Event) : τ.inScope inner = σ.inScope inner := by
  rw [Site.inScope, Site.inScope, h.depth]

end Site.Agrees

/-- **Programs with the same globals and the same functions, up to their numbers, check a body at
sites that agree.** -/
theorem Program.agrees_site {p q : Program} (hregistry : p.registry.Agrees q.registry)
    (hglobals : ∀ x, q.globalScope.lookup x = p.globalScope.lookup x) : p.site.Agrees q.site where
  context := by
    refine ⟨fun x ↦ ?_, hregistry.profile⟩
    show (Scopes.empty.push q.globalScope).lookup x = (Scopes.empty.push p.globalScope).lookup x
    rw [Scopes.lookup_push, Scopes.lookup_push, hglobals]
  depth := rfl
  function := rfl
  loops := rfl

/-! ## Statements and functions

Inductions over statements and blocks, for all sites that agree at once: the site changes on the way
into a block or a loop, and it does so in the same way on both sides. -/

namespace Stmt

theorem annotate_congr :
    (∀ (s : Stmt) {Γ Δ : Context}, Γ.Agrees Δ → s.annotate Δ = s.annotate Γ) ∧
    ∀ (b : Block) {Γ Δ : Context}, Γ.Agrees Δ → b.annotate Δ = b.annotate Γ := by
  refine Stmt.induct ?block ?cond ?whileLoop ?forLoop ?ret ?jump ?expr ?body
  case block => intro b ih Γ Δ h; rw [annotate, annotate, ih h]
  case cond =>
    intro p c a b iha ihb Γ Δ h
    rw [annotate, annotate, c.check_congr h, iha (h.push []), ihb (h.push [])]
  case whileLoop => intro p c b ih Γ Δ h; rw [annotate, annotate, c.check_congr h, ih h]
  case forLoop =>
    intro p i c s b ih Γ Δ h
    rw [annotate, annotate, i.check_congr h, c.check_congr h, s.check_congr h, ih h]
  case ret => intro p e Γ Δ h; rw [annotate, annotate, e.check_congr h]
  case jump => intro p j Γ Δ h; rw [annotate, annotate]
  case expr => intro e Γ Δ h; rw [annotate, annotate, e.check_congr h]
  case body =>
    intro p vars ss ih Γ Δ h
    rw [Block.annotate, Block.annotate, annotateAll_eq_map, annotateAll_eq_map,
      List.map_congr_left fun s hs ↦ ih s hs (h.push _)]

theorem eventsAll_eq_flatMap (σ : Site) (ret : Option Ty) (ss : List Stmt) :
    eventsAll σ ret ss = ss.flatMap (events σ ret) := by
  induction ss with
  | nil => rfl
  | cons s ss ih => rw [eventsAll, ih, List.flatMap_cons]

theorem events_congr (ret : Option Ty) :
    (∀ (s : Stmt) {σ τ : Site}, σ.Agrees τ → s.events τ ret = s.events σ ret) ∧
    ∀ (b : Block) {σ τ : Site}, σ.Agrees τ → b.events τ ret = b.events σ ret := by
  refine Stmt.induct ?block ?cond ?whileLoop ?forLoop ?ret ?jump ?expr ?body
  case block => intro b ih σ τ h; rw [events, events, ih h]
  -- sites that agree still do after one more scope, or inside of one more loop
  case cond =>
    intro p c a b iha ihb σ τ h
    rw [events, events, Expr.predicateEvents, Expr.predicateEvents, c.check_congr h.context,
      iha (h.push []), ihb (h.push []), h.inScope]
  case whileLoop =>
    intro p c b ih σ τ h
    rw [events, events, Expr.predicateEvents, Expr.predicateEvents, c.check_congr h.context,
      ih h.inLoop]
  case forLoop =>
    intro p i c s b ih σ τ h
    rw [events, events, Expr.loopConditionEvents, Expr.loopConditionEvents, Expr.predicateEvents,
      Expr.predicateEvents, i.check_congr h.context, c.check_congr h.context,
      s.check_congr h.context, ih h.inLoop]
  case ret =>
    intro p e σ τ h
    rw [events, events, Expr.returnEvents, Expr.returnEvents, e.check_congr h.context, h.function]
  case jump => intro p j σ τ h; rw [events, events, h.loops]
  case expr => intro e σ τ h; rw [events, events, e.check_congr h.context]
  case body =>
    intro p vars ss ih σ τ h
    rw [Block.events, Block.events, h.inScope, eventsAll_eq_flatMap, eventsAll_eq_flatMap,
      List.flatMap_congr fun s hs ↦ ih s hs (h.push _)]

end Stmt

namespace FnDecl

theorem annotate_congr {Γ Δ : Context} (h : Γ.Agrees Δ) (f : FnDecl) :
    f.annotate Δ = f.annotate Γ := by
  rw [annotate, annotate, Stmt.annotate_congr.2 _ (h.push _)]

theorem events_congr {σ τ : Site} (h : σ.Agrees τ) (f : FnDecl) : f.events τ = f.events σ := by
  have hinner : f.innerEvents τ = f.innerEvents σ := by
    rw [innerEvents, innerEvents, (Stmt.events_congr _).2 _ ((h.inFunction f.name).push _),
      h.inScope]
  rw [events, events, hinner]

end FnDecl

end Typewright
