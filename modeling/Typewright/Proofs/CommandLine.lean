import Typewright.Command
import Typewright.Proofs.Caret
import Typewright.Proofs.ProgramTyping

/-!
# The command agrees with the verdict

The command does the three phases itself, and decides by what it has at hand after each of them how
to end and what to write.  `Command.Ends` has one rule for each way that it can end without a log,
and there is none for a check that breaks down: a check never does.  `Outcome.Agrees` says what the
outcome has to do with the tokens, the program and its verdict, and follows from `Command.Ends` by
its rules.

The tree that is written is a `Dump`.  `Dump.records` are all the records in it, and by
`Program.showsTypes_annotate` the record of an expression always shows a type, where the program was
accepted.  The main result is `Command.run_agrees`.

## Why two descriptions of an outcome

`Command.Ends` follows the command: each rule assumes the results of the phases up to the one that
decides.  It is convenient to prove and to use, but it says what the command does in the words of
the command.  `Outcome.Agrees` is about the outcome as a user sees it, and its clauses are
independent: the exit code is zero exactly for accepted programs, something is written as an error
exactly if it is not, a tree is written exactly if it is and was asked for.  Every clause is one
look at the four rules.

The command is asked with arguments, so the theorem also has to say that every wish can be put into
arguments (`Options.parse_args`).  Without it, a command that accepts no arguments would be a model
of the theorem.
-/

set_option autoImplicit false

namespace Typewright

/-! ## Arguments

For every record of options there are arguments that are read as it.  The entry is given in the form
with an equals sign, so that it may be any text, and the file comes after two dashes, for the same
reason. -/

namespace Options

/-- Arguments that ask for the options. -/
def args (o : Options) : List String :=
  ("--entry=" ++ o.entry) :: ((if o.verbose then ["--verbose"] else [])
    ++ ((if o.emitTree then ["--emit-typed-ast"] else []) ++ ["--", o.file]))

/-- What follows the equals sign is the entry, whatever it is. -/
theorem single_entry (s : Partial) (name : String) :
    single s ("--entry=" ++ name) = .more <$> s.setEntry name := by
  have hlist : ("--entry=" ++ name).toList = "--entry".toList ++ '=' :: name.toList := by
    rw [String.toList_append]
    rfl
  have hword : ∀ c ∈ "--entry".toList, decide (c ≠ '=') = true := List.all_eq_true.1 rfl
  have hname : ("--entry".toList ++ '=' :: name.toList).takeWhile (· ≠ '=') = "--entry".toList := by
    rw [List.takeWhile_append_of_pos hword, List.takeWhile_cons_of_neg (by decide),
      List.append_nil]
  have hvalue : ("--entry".toList ++ '=' :: name.toList).drop "--entry".toList.length
      = '=' :: name.toList := List.drop_left
  simp only [single, hlist, hname, hvalue, String.ofList_toList]
  rfl

/-- An argument that is read on its own. -/
theorem parseFrom_cons {s : Partial} {arg : String} (harg : arg ≠ "--") (hentry : arg ≠ "--entry")
    (args : List String) : parseFrom s (arg :: args) = (do
      match ← single s arg with
      | .done r => return r
      | .more s => parseFrom s args) := by
  rw [parseFrom.eq_def]
  split
  next heq => cases heq
  next heq => exact absurd (List.cons.inj heq).1 harg
  next heq => exact absurd (List.cons.inj heq).1 hentry
  next heq => exact absurd (List.cons.inj heq).1 hentry
  next heq =>
    cases heq
    rfl

/-- The entry can be any text. -/
theorem parseFrom_entry (s : Partial) (name : String) (args : List String) :
    parseFrom s (("--entry=" ++ name) :: args)
      = (do parseFrom (← s.setEntry name) args) := by
  have hne : ∀ t : String, t.length < 8 → "--entry=" ++ name ≠ t := by
    rintro _ ht rfl
    rw [String.length_append] at ht
    exact absurd ht (Nat.not_lt.2 (Nat.le_add_right 8 _))
  rw [parseFrom_cons (hne _ (by decide)) (hne _ (by decide)), single_entry]
  cases s.setEntry name <;> rfl

/-- After the two dashes everything is a file. -/
theorem files_singleton {s : Partial} (hs : s.file = none) {file : String} (hfile : file ≠ "") :
    files s [file]
      = .ok (.check ⟨file, s.verbose, s.entry.getD Checker.mainName, s.emitTree⟩) := by
  have hset : s.setFile file = .ok { s with file := some file } := by
    rw [Partial.setFile, hs, if_neg nofun, if_neg hfile]
  rw [files, hset]
  rfl

/-- All options can be asked for, if there is a file. -/
theorem parse_args {o : Options} (hfile : o.file ≠ "") : parse o.args = .ok (.check o) := by
  obtain ⟨file, verbose, entry, emitTree⟩ := o
  rw [parse, args, parseFrom_entry]
  -- what is left to read is known but for the file
  cases verbose with
  | false =>
    cases emitTree with
    | false => exact files_singleton rfl hfile
    | true => exact files_singleton rfl hfile
  | true =>
    cases emitTree with
    | false => exact files_singleton rfl hfile
    | true => exact files_singleton rfl hfile

end Options

/-! ## What a dump shows

A dump is a tree of names and texts, made to be printed.  A record of an expression is one with the
name `Expr`, wherever it is in the dump, so the property is stated for the dump alone and does not
go back to the program that it came from. -/

namespace Dump

mutual
/-- The records in a dump, each with its name and its fields. -/
def records : Dump → List (String × List (String × Dump))
  | atom _ => []
  | record name fields => (name, fields) :: recordsOfFields fields
  | variant _ item => records item
  | list items => recordsOfItems items

/-- The records in the fields of a record. -/
def recordsOfFields : List (String × Dump) → List (String × List (String × Dump))
  | [] => []
  | (_, d) :: fields => records d ++ recordsOfFields fields

/-- The records in the items of a list. -/
def recordsOfItems : List Dump → List (String × List (String × Dump))
  | [] => []
  | d :: items => records d ++ recordsOfItems items
end

theorem recordsOfFields_eq_flatMap (fields : List (String × Dump)) :
    recordsOfFields fields = fields.flatMap (·.2.records) := by
  induction fields with
  | nil => rfl
  | cons field fields ih => rw [recordsOfFields, ih, List.flatMap_cons]

theorem recordsOfItems_eq_flatMap (items : List Dump) :
    recordsOfItems items = items.flatMap records := by
  induction items with
  | nil => rfl
  | cons d items ih => rw [recordsOfItems, ih, List.flatMap_cons]

/-- Every record of an expression shows a type, and none shows that there is no type. -/
def ShowsTypes (d : Dump) : Prop :=
  ∀ fields, ("Expr", fields) ∈ d.records →
    (∃ t, ("ty", Ty.dump (some t)) ∈ fields) ∧ ("ty", Ty.dump none) ∉ fields

@[simp] theorem showsTypes_atom (text : String) : (atom text).ShowsTypes :=
  fun _ h ↦ absurd h List.not_mem_nil

@[simp] theorem showsTypes_text (s : String) : (Dump.text s).ShowsTypes := showsTypes_atom _

@[simp] theorem showsTypes_variant {name : String} {d : Dump} :
    (variant name d).ShowsTypes ↔ d.ShowsTypes := by
  rw [ShowsTypes, records, ShowsTypes]

@[simp] theorem showsTypes_list {ds : List Dump} :
    (list ds).ShowsTypes ↔ ∀ d ∈ ds, d.ShowsTypes := by
  simp only [ShowsTypes, records, recordsOfItems_eq_flatMap, List.mem_flatMap]
  exact ⟨fun h d hd fields hf ↦ h fields ⟨d, hd, hf⟩, fun h fields ⟨d, hd, hf⟩ ↦ h d hd fields hf⟩

/-- A record shows types if its fields do, and shows its own if it is that of an expression. -/
theorem showsTypes_record {name : String} {fields : List (String × Dump)} :
    (record name fields).ShowsTypes ↔
      (name = "Expr" → (∃ t, ("ty", Ty.dump (some t)) ∈ fields) ∧ ("ty", Ty.dump none) ∉ fields) ∧
      ∀ field ∈ fields, field.2.ShowsTypes := by
  simp only [ShowsTypes, records, recordsOfFields_eq_flatMap, List.mem_cons, List.mem_flatMap,
    Prod.mk.injEq]
  constructor
  · intro h
    exact ⟨fun hname ↦ h fields (.inl ⟨hname.symm, rfl⟩),
      fun field hfield fs hfs ↦ h fs (.inr ⟨field, hfield, hfs⟩)⟩
  · rintro ⟨hname, hfields⟩ fs (⟨heq, rfl⟩ | ⟨field, hfield, hfs⟩)
    · exact hname heq.symm
    · exact hfields field hfield fs hfs

theorem showsTypes_record_of_ne {name : String} {fields : List (String × Dump)}
    (hname : name ≠ "Expr") :
    (record name fields).ShowsTypes ↔ ∀ field ∈ fields, field.2.ShowsTypes := by
  rw [showsTypes_record, and_iff_right fun heq ↦ absurd heq hname]

end Dump

open Dump

@[simp] theorem Position.showsTypes_dump (p : Position) : p.dump.ShowsTypes :=
  (showsTypes_record_of_ne (by decide)).2 (by simp)

/-- The record of an expression shows the type that is written on it. -/
theorem Note.showsTypes_dump {n : Note} {kind : Dump} :
    (n.dump kind).ShowsTypes ↔ n.ty ≠ none ∧ kind.ShowsTypes := by
  rw [Note.dump, showsTypes_record]
  cases n.ty with
  | none => simp
  | some t => simp [Ty.dump]

/-! ## The tree of an accepted program

One induction for expressions and one for statements: if every node carries a type, every record
shows it.  That every node of an accepted program does was proved with the type system. -/

theorem Expr.dumpAll_eq_map (es : List Expr) : dumpAll es = es.map dump := by
  induction es with
  | nil => rfl
  | cons e es ih => rw [dumpAll, ih, List.map_cons]

theorem Stmt.dumpAll_eq_map (ss : List Stmt) : dumpAll ss = ss.map dump := by
  induction ss with
  | nil => rfl
  | cons s ss ih => rw [dumpAll, ih, List.map_cons]

/-- The dump of an expression shows a type for every node, if they all carry one. -/
theorem Expr.showsTypes_dump (e : Expr) : (∀ n ∈ e.nodes, n.ty ≠ none) → e.dump.ShowsTypes := by
  induction e with
  | int | float | string | bool | var | absent =>
    exact fun h ↦ Note.showsTypes_dump.2 ⟨h _ List.mem_cons_self, by simp⟩
  | assign n x e ih =>
    rw [nodes, List.forall_mem_cons]
    rintro ⟨hn, he⟩
    refine Note.showsTypes_dump.2 ⟨hn, ?_⟩
    simp [showsTypes_record_of_ne, ih he]
  | binary n e op f ihe ihf =>
    rw [nodes, List.forall_mem_cons, List.forall_mem_append]
    rintro ⟨hn, he, hf⟩
    refine Note.showsTypes_dump.2 ⟨hn, ?_⟩
    simp [showsTypes_record_of_ne, ihe he, ihf hf]
  | unary n op e ih =>
    rw [nodes, List.forall_mem_cons]
    rintro ⟨hn, he⟩
    refine Note.showsTypes_dump.2 ⟨hn, ?_⟩
    simp [showsTypes_record_of_ne, ih he]
  | call n f args ih =>
    rw [nodes, List.forall_mem_cons, nodesAll_eq_flatMap, List.forall_mem_flatMap]
    rintro ⟨hn, hargs⟩
    refine Note.showsTypes_dump.2 ⟨hn, ?_⟩
    simpa [showsTypes_record_of_ne, dumpAll_eq_map] using fun a ha ↦ ih a ha (hargs a ha)
  | actual n e ih =>
    rw [nodes, List.forall_mem_cons]
    rintro ⟨hn, he⟩
    exact Note.showsTypes_dump.2 ⟨hn, showsTypes_variant.2 (ih he)⟩

theorem VarDecl.showsTypes_dump {kind : String} (hkind : kind ≠ "Expr") (v : VarDecl) :
    (v.dump kind).ShowsTypes :=
  (showsTypes_record_of_ne hkind).2 (by simp)

/-- The dump of a statement shows a type for every expression, if they all carry one, and so for a
block. -/
theorem Stmt.showsTypes_dump :
    (∀ (s : Stmt) (Γ : Env), (∀ o ∈ s.exprs Γ, ∀ n ∈ o.2.nodes, n.ty ≠ none) →
      s.dump.ShowsTypes) ∧
    ∀ (b : Block) (Γ : Env), (∀ o ∈ b.exprs Γ, ∀ n ∈ o.2.nodes, n.ty ≠ none) →
      b.dump.ShowsTypes := by
  refine Stmt.induct ?block ?cond ?whileLoop ?forLoop ?ret ?jump ?expr ?body
  case block => exact fun b ih Γ h ↦ showsTypes_variant.2 (ih Γ h)
  case cond =>
    intro p c a b iha ihb Γ h
    rw [exprs, List.forall_mem_cons, List.forall_mem_append] at h
    simp [dump, showsTypes_record_of_ne, c.showsTypes_dump h.1, iha Γ h.2.1, ihb Γ h.2.2]
  case whileLoop =>
    intro p c b ih Γ h
    rw [exprs, List.forall_mem_cons] at h
    simp [dump, showsTypes_record_of_ne, c.showsTypes_dump h.1, ih Γ h.2]
  case forLoop =>
    intro p i c s b ih Γ h
    rw [exprs, List.forall_mem_cons, List.forall_mem_cons, List.forall_mem_cons] at h
    simp [dump, showsTypes_record_of_ne, i.showsTypes_dump h.1, c.showsTypes_dump h.2.1,
      s.showsTypes_dump h.2.2.1, ih Γ h.2.2.2]
  case ret =>
    intro p e Γ h
    rw [exprs, List.forall_mem_singleton] at h
    simp [dump, showsTypes_record_of_ne, e.showsTypes_dump h]
  case jump =>
    intro p j Γ _
    cases j <;> simp [dump, showsTypes_record_of_ne]
  case expr =>
    intro e Γ h
    rw [exprs, List.forall_mem_singleton] at h
    simp [dump, showsTypes_record_of_ne, e.showsTypes_dump h]
  case body =>
    intro p vars ss ih Γ h
    rw [Block.exprs, exprsAll_eq_flatMap, List.forall_mem_flatMap] at h
    have hbody : ∀ s ∈ ss, s.dump.ShowsTypes := fun s hs ↦ ih s hs _ (h s hs)
    simpa [Block.dump, showsTypes_record_of_ne, dumpAll_eq_map,
      VarDecl.showsTypes_dump] using hbody

namespace Program

/-- **The dump of an accepted program shows a type for every expression.** -/
theorem showsTypes_annotate {p : Program} {entry : String} (h : p.diagnostics entry = []) :
    p.annotate.dump.ShowsTypes := by
  have hcarry := carryTypes_annotate ((p.diagnostics_eq_nil_iff entry).1 h)
  have hdecl : ∀ d ∈ p.annotate.decls, d.dump.ShowsTypes := by
    intro d hd
    cases d with
    | global v => exact showsTypes_variant.2 (VarDecl.showsTypes_dump (by decide) v)
    | function g =>
      have hg : g ∈ p.annotate.functions := List.mem_filterMap.2 ⟨_, hd, rfl⟩
      have hbody := Stmt.showsTypes_dump.2 _ _ fun o ho n hn ↦ by
        obtain ⟨t, ht, -⟩ := hcarry g hg o ho n hn
        exact ht ▸ Option.some_ne_none t
      simp [Decl.dump, FnDecl.dump, showsTypes_record_of_ne, VarDecl.showsTypes_dump, hbody]
  simpa [dump, showsTypes_record_of_ne] using hdecl

end Program

/-! ## How the command ends

First the rules, then the clauses of `Outcome.Agrees` one by one.  A clause that has a phase as a
hypothesis is decided by the results of the phases, which are the same for the hypothesis and for
the rule. -/

/-- What the grammar has against the tokens of a source is always a diagnostic. -/
theorem Program.exists_error_of_scan {source : String} {ts : List Token} {stop : Stop}
    (hts : Token.scan source = .ok ts) (hstop : ofTokens ts = .error stop) :
    ∃ d, stop = .error d := by
  have htiles : Tiles [] source.toList ts := Token.tiles_scanFrom hts
  obtain ⟨us, rfl, -⟩ := htiles.endOfText
  obtain ⟨d, -, hd, -⟩ := exists_blames_of_error rfl hstop
  exact ⟨d, hd⟩

/-- What the command writes of diagnostics, with the reason why it ends. -/
def Rejection.report (r : Rejection) (ds : List Diagnostic) : String :=
  Command.unlines (ds.map Diagnostic.summary ++ [r.message])

namespace Command

/-! ### The rules

A run on a source can end in four ways, and each of them fixes the exit code and both texts.  The
rules are told by what scanning, reading and checking gave, and `ends_check` says that there is no
other end.  What is shown about outcomes after that is by cases on these rules, and `check` is not
opened again. -/

/-- How the command ends on a source when no log is asked for. -/
inductive Ends (o : Options) (source : String) : Outcome → Prop
  | scan {d : Diagnostic} (hscan : Token.scan source = .error d) :
      Ends o source ⟨1, "", d.excerpt o.file source⟩
  | grammar {ts : List Token} {d : Diagnostic} (hscan : Token.scan source = .ok ts)
      (hread : Program.ofTokens ts = .error (.error d)) :
      Ends o source ⟨1, "", d.excerpt o.file source⟩
  | halted {ts : List Token} {p q : Program} {c : Checker} (hscan : Token.scan source = .ok ts)
      (hread : Program.ofTokens ts = .ok p) (hcheck : p.check o.entry = .ok (q, c))
      (hdiagnostics : c.diagnostics ≠ []) :
      Ends o source ⟨1, "", (Rejection.halted c.diagnostics).report c.diagnostics⟩
  | accepted {ts : List Token} {p q : Program} {c : Checker} (hscan : Token.scan source = .ok ts)
      (hread : Program.ofTokens ts = .ok p) (hcheck : p.check o.entry = .ok (q, c))
      (hdiagnostics : c.diagnostics = []) :
      Ends o source ⟨0, if o.emitTree then q.dump.indented 0 ++ "\n" else "", ""⟩

/-- The command ends by one of the rules. -/
theorem ends_check {o : Options} (hverbose : o.verbose = false) (source : String) :
    Ends o source (check o source) := by
  have hlogged : ∀ log, logged o log = "" := fun log ↦ by rw [logged, hverbose, if_neg nofun]
  cases hscan : Token.scan source with
  | error d =>
    have hcheck : check o source = ⟨1, "", d.excerpt o.file source⟩ := by
      simp [check, Program.read, hscan, hlogged, Refusal.diagnostic?]
    rw [hcheck]
    exact .scan hscan
  | ok ts =>
    cases hread : Program.ofTokens ts with
    | error stop =>
      obtain ⟨d, rfl⟩ := Program.exists_error_of_scan hscan hread
      have hcheck : check o source = ⟨1, "", d.excerpt o.file source⟩ := by
        simp [check, Program.read, hscan, hread, hlogged, Refusal.diagnostic?]
      rw [hcheck]
      exact .grammar hscan hread
    | ok p =>
      have hcheck := p.check_eq o.entry
      have hchecked := p.diagnostics_checked o.entry
      -- a check never fails itself, so only what it reports is left to tell apart
      by_cases hdiagnostics : p.diagnostics o.entry = []
      · have heq : check o source
            = ⟨0, if o.emitTree then p.annotate.dump.indented 0 ++ "\n" else "", ""⟩ := by
          simp [check, Program.read, hscan, hread, hcheck, hlogged, hdiagnostics]
        rw [heq]
        exact .accepted hscan hread hcheck (hchecked.trans hdiagnostics)
      · have heq : check o source = ⟨1, "", (Rejection.halted
            (p.diagnostics o.entry)).report (p.diagnostics o.entry)⟩ := by
          simp [check, Program.read, hscan, hread, hcheck, hlogged, hdiagnostics,
            Rejection.report]
        rw [heq, ← hchecked]
        exact .halted hscan hread hcheck (hchecked ▸ hdiagnostics)

end Command

/-! ### What an outcome says

The same from the side of the user, who sees an exit code and two texts and not the rule.  Each
field of `Outcome.Agrees` is a lemma of its own.  A run that fails has to say something: an excerpt
and a report are never empty, and otherwise silence and success could not be told apart. -/

/-- The outcome of the command is what the tokens, the program and its verdict say it is. -/
structure Outcome.Agrees (out : Outcome) (o : Options) (source : String) : Prop where
  /-- It never ends as if the arguments were wrong or the check had broken down. -/
  exit : out.exit = 0 ∨ out.exit = 1
  exit_eq_zero_iff : out.exit = 0 ↔ ∃ ts p, Token.scan source = .ok ts ∧
    Program.ofTokens ts = .ok p ∧ p.verdict o.entry = .ok ()
  stderr_eq_empty_iff : out.stderr = "" ↔ out.exit = 0
  /-- What the scan has against the source is written as an excerpt. -/
  scan : ∀ d, Token.scan source = .error d → out.stderr = d.excerpt o.file source
  /-- So is what the grammar has against its tokens. -/
  grammar : ∀ ts stop, Token.scan source = .ok ts → Program.ofTokens ts = .error stop →
    ∃ d, stop = .error d ∧ out.stderr = d.excerpt o.file source
  /-- A rejection is written as the diagnostics of the check in order, and then its own text. -/
  verdict : ∀ ts p r, Token.scan source = .ok ts → Program.ofTokens ts = .ok p →
    p.verdict o.entry = .error r →
      ∃ q c, p.check o.entry = .ok (q, c) ∧ r = .halted c.diagnostics ∧
        out.stderr = Command.unlines (c.diagnostics.map Diagnostic.summary ++ [r.message])
  stdout_ne_empty_iff : out.stdout ≠ "" ↔ out.exit = 0 ∧ o.emitTree = true
  /-- The tree that is written is that of the checked program.  Every node of every expression of
  its functions carries the type that it has there, and the tree shows it. -/
  tree : out.stdout ≠ "" → ∃ ts p q c, Token.scan source = .ok ts ∧
    Program.ofTokens ts = .ok p ∧ p.check o.entry = .ok (q, c) ∧
      out.stdout = q.dump.indented 0 ++ "\n" ∧ q.dump.ShowsTypes ∧
      ∀ f ∈ q.functions, CarryTypes (f.body.exprs (p.env.enter f.params))

theorem Diagnostic.excerpt_ne_empty (d : Diagnostic) (file source : String) :
    d.excerpt file source ≠ "" := by
  unfold excerpt
  cases d.position <;> simp

theorem Rejection.report_ne_empty (r : Rejection) (ds : List Diagnostic) : r.report ds ≠ "" := by
  rw [report, Command.unlines, List.map_append, String.join_append]
  simp

theorem Program.verdict_of_check {p q : Program} {entry : String} {c : Checker}
    (h : p.check entry = .ok (q, c)) : p.verdict entry
      = if c.diagnostics.isEmpty then .ok () else .error (.halted c.diagnostics) := by
  rw [verdict, h]

namespace Command.Ends

variable {o : Options} {source : String} {out : Outcome}

/-- The outcome is a success exactly when the command ends by the last rule. -/
theorem exit_eq_zero_iff (h : Ends o source out) : out.exit = 0 ↔ ∃ ts p,
    Token.scan source = .ok ts ∧ Program.ofTokens ts = .ok p ∧ p.verdict o.entry = .ok () := by
  cases h with
  | scan hscan => simp [hscan]
  | grammar hscan hread => simp [hscan, hread]
  | halted hscan hread hcheck hne =>
    simp [hscan, hread, Program.verdict_of_check hcheck, hne]
  | accepted hscan hread hcheck hnil =>
    simp [hscan, hread, Program.verdict_of_check hcheck, hnil]

theorem stderr_eq_empty_iff (h : Ends o source out) : out.stderr = "" ↔ out.exit = 0 := by
  cases h with
  | scan => simp [Diagnostic.excerpt_ne_empty]
  | grammar => simp [Diagnostic.excerpt_ne_empty]
  | halted => simp [Rejection.report_ne_empty]
  | accepted => simp

theorem stdout_ne_empty_iff (h : Ends o source out) :
    out.stdout ≠ "" ↔ out.exit = 0 ∧ o.emitTree = true := by
  cases h with
  | scan => simp
  | grammar => simp
  | halted => simp
  | accepted => simp

theorem stderr_of_scan (h : Ends o source out) {d : Diagnostic}
    (hd : Token.scan source = .error d) : out.stderr = d.excerpt o.file source := by
  cases h with
  | scan hscan => cases hscan.symm.trans hd; rfl
  | grammar hscan _ => cases hscan.symm.trans hd
  | halted hscan _ _ _ => cases hscan.symm.trans hd
  | accepted hscan _ _ _ => cases hscan.symm.trans hd

theorem stderr_of_grammar (h : Ends o source out) {ts : List Token} {stop : Stop}
    (hts : Token.scan source = .ok ts) (hstop : Program.ofTokens ts = .error stop) :
    ∃ d, stop = .error d ∧ out.stderr = d.excerpt o.file source := by
  cases h with
  | scan hscan => cases hscan.symm.trans hts
  | grammar hscan hread =>
    cases hscan.symm.trans hts
    cases hread.symm.trans hstop
    exact ⟨_, rfl, rfl⟩
  | halted hscan hread _ _ =>
    cases hscan.symm.trans hts
    cases hread.symm.trans hstop
  | accepted hscan hread _ _ =>
    cases hscan.symm.trans hts
    cases hread.symm.trans hstop

theorem stderr_of_verdict (h : Ends o source out) {ts : List Token} {p : Program} {r : Rejection}
    (hts : Token.scan source = .ok ts) (hp : Program.ofTokens ts = .ok p)
    (hr : p.verdict o.entry = .error r) : ∃ q c, p.check o.entry = .ok (q, c) ∧
      r = .halted c.diagnostics ∧ out.stderr = r.report c.diagnostics := by
  cases h with
  | scan hscan => cases hscan.symm.trans hts
  | grammar hscan hread =>
    cases hscan.symm.trans hts
    cases hread.symm.trans hp
  | halted hscan hread hcheck hne =>
    cases hscan.symm.trans hts
    cases hread.symm.trans hp
    rw [Program.verdict_of_check hcheck, if_neg (by simpa using hne)] at hr
    cases hr
    exact ⟨_, _, hcheck, rfl, rfl⟩
  | accepted hscan hread hcheck hnil =>
    cases hscan.symm.trans hts
    cases hread.symm.trans hp
    rw [Program.verdict_of_check hcheck, if_pos (by simpa using hnil)] at hr
    cases hr

theorem tree (h : Ends o source out) (hout : out.stdout ≠ "") : ∃ ts p q c,
    Token.scan source = .ok ts ∧ Program.ofTokens ts = .ok p ∧ p.check o.entry = .ok (q, c) ∧
      out.stdout = q.dump.indented 0 ++ "\n" ∧ q.dump.ShowsTypes ∧
      ∀ f ∈ q.functions, CarryTypes (f.body.exprs (p.env.enter f.params)) := by
  have htree := h.stdout_ne_empty_iff.1 hout
  cases h with
  | scan => cases htree.1
  | grammar => cases htree.1
  | halted => cases htree.1
  | @accepted ts p q c hscan hread hcheck hnil =>
    refine ⟨ts, p, q, c, hscan, hread, hcheck, if_pos htree.2, ?_⟩
    cases (p.check_eq o.entry).symm.trans hcheck
    have hdiagnostics := (p.diagnostics_checked o.entry).symm.trans hnil
    exact ⟨Program.showsTypes_annotate hdiagnostics,
      Program.carryTypes_annotate ((p.diagnostics_eq_nil_iff o.entry).1 hdiagnostics)⟩

/-- The rules by which the command ends agree with the verdict. -/
theorem agrees (h : Ends o source out) : out.Agrees o source where
  exit := by cases h <;> simp
  exit_eq_zero_iff := h.exit_eq_zero_iff
  stderr_eq_empty_iff := h.stderr_eq_empty_iff
  scan _ := h.stderr_of_scan
  grammar _ _ := h.stderr_of_grammar
  verdict _ _ _ := h.stderr_of_verdict
  stdout_ne_empty_iff := h.stdout_ne_empty_iff
  tree := h.tree

end Command.Ends

namespace Command

/-! ### Files

A file is bytes.  Where they are not UTF-8 there is no source, and the theorem is about those that
are. -/

/-- **The command agrees with the verdict.**  Whatever the file, the entry and the wish for a tree,
there are arguments that ask for them if the file has a name, and with all arguments that do, the
outcome of the command on the bytes of a source is what the library says of the source. -/
theorem run_agrees {o : Options} (hverbose : o.verbose = false) {bytes : ByteArray}
    {source : String} (hsource : String.fromUTF8? bytes = some source) :
    (o.file ≠ "" → Options.parse o.args = .ok (.check o)) ∧
      ∀ args, Options.parse args = .ok (.check o) → (run args (.ok bytes)).Agrees o source := by
  refine ⟨Options.parse_args, fun args hargs ↦ ?_⟩
  have hrun : run args (.ok bytes) = check o source := by
    rw [run, hargs]
    simp only [checkFile, bind, Except.bind, hsource]
    rfl
  rw [hrun]
  exact (ends_check hverbose source).agrees

/-- A source with one function. -/
def oneFunction : String := "func main() Void \x7b 1; \x7d"

/-- The tokens of `Command.oneFunction`. -/
def oneFunctionTokens : List Token :=
  [⟨.funcWord, "func", ⟨1, 1⟩, ⟨1, 5⟩⟩, ⟨.identifier, "main", ⟨1, 6⟩, ⟨1, 10⟩⟩,
    ⟨.openParen, "(", ⟨1, 10⟩, ⟨1, 11⟩⟩, ⟨.closeParen, ")", ⟨1, 11⟩, ⟨1, 12⟩⟩,
    ⟨.identifier, "Void", ⟨1, 13⟩, ⟨1, 17⟩⟩, ⟨.openCurly, "\x7b", ⟨1, 18⟩, ⟨1, 19⟩⟩,
    ⟨.number, "1", ⟨1, 20⟩, ⟨1, 21⟩⟩, ⟨.semicolon, ";", ⟨1, 21⟩, ⟨1, 22⟩⟩,
    ⟨.closeCurly, "\x7d", ⟨1, 23⟩, ⟨1, 24⟩⟩, Token.endAt ⟨1, 24⟩]

/-- The program of `Command.oneFunction`. -/
def oneFunctionProgram : Program :=
  ⟨[.function ⟨"main", [], "Void", ⟨⟨1, 18⟩, [], [.expr (.int { position := ⟨1, 20⟩ } 1)]⟩,
    ⟨1, 1⟩⟩]⟩

/-- It is accepted with the entry `main`, and its tree is written; it is not with any other. -/
theorem run_agrees_oneFunction : ∃ bytes, String.fromUTF8? bytes = some oneFunction ∧
    (∃ args out q, Options.parse args = .ok (.check ⟨"f", false, "main", true⟩) ∧
      run args (.ok bytes) = out ∧ out.exit = 0 ∧ out.stderr = "" ∧
      out.stdout = q.dump.indented 0 ++ "\n" ∧ Dump.ShowsTypes (Program.dump q) ∧
      ∀ f ∈ q.functions, CarryTypes (f.body.exprs (oneFunctionProgram.env.enter f.params))) ∧
    ∃ args out, Options.parse args = .ok (.check ⟨"f", false, "start", true⟩) ∧
      run args (.ok bytes) = out ∧ out.exit = 1 ∧ out.stdout = "" ∧
      out.stderr = unlines ["Main function start is not defined.",
        "Compilation halted due to static semantic errors."] := by
  have hbytes : String.fromUTF8? oneFunction.toUTF8 = some oneFunction :=
    dif_pos oneFunction.isValidUTF8
  have hscan : Token.scan oneFunction = .ok oneFunctionTokens := by decide +kernel
  have hread : Program.ofTokens oneFunctionTokens = .ok oneFunctionProgram := rfl
  refine ⟨_, hbytes, ?_, ?_⟩
  · obtain ⟨hparse, hagrees⟩ := run_agrees (o := ⟨"f", false, "main", true⟩) rfl hbytes
    have hargs := hparse (by decide)
    have hrun := hagrees _ hargs
    have hexit := hrun.exit_eq_zero_iff.2 ⟨_, _, hscan, hread, rfl⟩
    obtain ⟨ts, p, q, -, hts, hp, -, hout, hq⟩ :=
      hrun.tree (hrun.stdout_ne_empty_iff.2 ⟨hexit, rfl⟩)
    cases hscan.symm.trans hts
    cases hread.symm.trans hp
    exact ⟨_, _, q, hargs, rfl, hexit, hrun.stderr_eq_empty_iff.2 hexit, hout, hq⟩
  · obtain ⟨hparse, hagrees⟩ := run_agrees (o := ⟨"f", false, "start", true⟩) rfl hbytes
    have hargs := hparse (by decide)
    have hrun := hagrees _ hargs
    have hverdict : oneFunctionProgram.verdict "start"
        = .error (.halted [⟨.missingEntry "start", none⟩]) := rfl
    obtain ⟨q, c, -, heq, hstderr⟩ := hrun.verdict _ _ _ hscan hread hverdict
    have hc : [⟨.missingEntry "start", none⟩] = c.diagnostics := Rejection.halted.inj heq
    rw [← hc] at hstderr
    have hexit : (run _ (.ok oneFunction.toUTF8)).exit ≠ 0 := fun h ↦ by
      rw [hrun.stderr_eq_empty_iff.2 h] at hstderr
      exact absurd hstderr.symm (Rejection.report_ne_empty _ _)
    refine ⟨_, _, hargs, rfl, hrun.exit.resolve_left hexit, ?_, hstderr⟩
    exact not_not.1 fun h ↦ hexit (hrun.stdout_ne_empty_iff.1 h).1

end Command

end Typewright
