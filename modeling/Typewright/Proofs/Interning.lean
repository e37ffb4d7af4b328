import Mathlib.Data.List.Dedup
import Typewright.Symbol

/-!
# Symbols and texts are in bijection

A symbol table is kept in both directions.  `SymbolTable.Consistent` says how the two belong
together: a text has the symbol of the slot in which it stands, and it stands in one slot only.
Interning keeps this, without any bound on how many texts there are.  The bound comes in where a
symbol is turned back into a slot.  Slots are numbers of 32 bits, so the directions are inverse to
each other as long as no more texts than that are distinct
(`SymbolTable.Consistent.symbol?_iff_text?`).

The main result is `SymbolTable.internAll_bijective`, about all that is interned after the names of
the language.  The bound is one on distinct texts, not on how often something is interned: a text
that is known takes no slot.

The constants for the names of the language are fixed numbers.  They are right because these names
are interned first and in order, and stay right because interning never changes the symbol of a
text.
-/

set_option autoImplicit false

namespace Typewright

/-! ## The constants

What the constants are meant for.  Nothing is said about a table yet; that they are the symbols of
their texts depends on how the first table is made. -/

namespace Symbol

/-- The constants, with the texts that they are meant for. -/
def constants : List (String × Symbol) :=
  [("Int", int), ("Float", float), ("String", string), ("Bool", bool), ("Void", void),
    ("main", main), ("printf", printf)]

/-- The symbol of the name of a type. -/
def ofTy : Ty → Symbol
  | .int => int
  | .float => float
  | .string => string
  | .bool => bool
  | .void => void

theorem mem_constants_ofTy (ty : Ty) : (ty.name, ofTy ty) ∈ constants := by
  cases ty <;> decide

theorem ty?_eq_some_iff {s : Symbol} {ty : Ty} : s.ty? = some ty ↔ s = ofTy ty := by
  constructor
  · intro h
    unfold ty? at h
    split_ifs at h <;> cases h <;> assumption
  · rintro rfl
    cases ty <;> decide

end Symbol

namespace SymbolTable

variable {t : SymbolTable}

/-! ## One text

A text that is known gets its symbol, and the table stays.  Any other one gets a new slot at the
end, with its number as the symbol.  The invariant is kept in both cases, even where the number does
not fit into a symbol any more. -/

/-- A text has the symbol of the slot in which it stands, and it stands in one slot only. -/
structure Consistent (t : SymbolTable) : Prop where
  nodup : t.texts.toList.Nodup
  symbol?_iff : ∀ {x : String} {s : Symbol},
    t.symbol? x = some s ↔ ∃ i, t.texts[i]? = some x ∧ s = ⟨UInt32.ofNat i⟩

theorem consistent_empty : empty.Consistent :=
  ⟨List.nodup_nil, by simp [symbol?, empty]⟩

/-- A text has no symbol exactly if it is not in the table. -/
theorem Consistent.symbol?_eq_none_iff (h : t.Consistent) {x : String} :
    t.symbol? x = none ↔ x ∉ t.texts := by
  rw [Option.eq_none_iff_forall_ne_some, Array.mem_iff_getElem?]
  constructor
  · rintro hnone ⟨i, hi⟩
    exact hnone _ (h.symbol?_iff.2 ⟨i, hi, rfl⟩)
  · rintro hx s hs
    obtain ⟨i, hi, -⟩ := h.symbol?_iff.1 hs
    exact hx ⟨i, hi⟩

/-- The text has its symbol now, and the symbols of other texts are what they were. -/
theorem symbol?_intern (t : SymbolTable) (a x : String) :
    (t.intern a).2.symbol? x = if x = a then some (t.intern a).1 else t.symbol? x := by
  unfold intern
  split
  case h_1 s hs =>
    split_ifs with hx
    · rw [hx, hs]
    · rfl
  case h_2 hnone =>
    rw [symbol?, List.lookup_cons, symbol?]
    by_cases hx : x = a
    · simp [hx]
    · simp [hx, beq_false_of_ne hx]

/-- A text keeps its symbol. -/
theorem symbol?_intern_of_some {x : String} {s : Symbol} (h : t.symbol? x = some s) (a : String) :
    (t.intern a).2.symbol? x = some s := by
  rw [symbol?_intern]
  split_ifs with hx
  · subst hx
    rw [intern, h]
  · exact h

/-- Interning keeps a table consistent. -/
theorem Consistent.intern (h : t.Consistent) (a : String) : (t.intern a).2.Consistent := by
  unfold SymbolTable.intern
  split
  case h_1 => exact h
  case h_2 hnone =>
    -- the new slot is the only one of its text, and no other slot has moved
    have hfresh : a ∉ t.texts := h.symbol?_eq_none_iff.1 hnone
    refine ⟨?_, fun {x s} ↦ ?_⟩
    · rw [Array.toList_push]
      exact List.nodup_append_comm.2 (List.nodup_cons.2 ⟨by simpa using hfresh, h.nodup⟩)
    · have hlookup := symbol?_intern t a x
      rw [SymbolTable.intern, hnone] at hlookup
      rw [hlookup]
      simp only [Array.getElem?_push]
      constructor
      · split_ifs with hx
        · intro hs
          exact ⟨t.texts.size, by rw [if_pos rfl, hx], (Option.some.inj hs).symm⟩
        · intro hs
          obtain ⟨i, hi, rfl⟩ := h.symbol?_iff.1 hs
          have hlt := (Array.getElem?_eq_some_iff.1 hi).1
          exact ⟨i, by rw [if_neg (Nat.ne_of_lt hlt), hi], rfl⟩
      · rintro ⟨i, hi, rfl⟩
        split_ifs at hi with hsize
        · obtain rfl := Option.some.inj hi
          rw [if_pos rfl, hsize]
          rfl
        · have hx : x ≠ a := by
            rintro rfl
            exact hfresh (Array.mem_iff_getElem?.2 ⟨i, hi⟩)
          rw [if_neg hx]
          exact h.symbol?_iff.2 ⟨i, hi, rfl⟩

theorem Consistent.mem_texts_intern (h : t.Consistent) {a x : String} :
    x ∈ (t.intern a).2.texts ↔ x = a ∨ x ∈ t.texts := by
  rw [← not_iff_not, not_or, ← (h.intern a).symbol?_eq_none_iff, ← h.symbol?_eq_none_iff,
    symbol?_intern]
  by_cases hx : x = a <;> simp [hx]

/-! ## One text after the other

The invariant and the symbols that have been given, along a list.  Symbols are never taken back, so
what was handed out first is still true at the end. -/

theorem internAll_cons (t : SymbolTable) (a : String) (texts : List String) :
    t.internAll (a :: texts) =
      ((t.intern a).1 :: ((t.intern a).2.internAll texts).1, ((t.intern a).2.internAll texts).2) :=
  rfl

theorem symbol?_internAll_of_some {x : String} {s : Symbol} (texts : List String) :
    ∀ {t : SymbolTable}, t.symbol? x = some s → (t.internAll texts).2.symbol? x = some s := by
  induction texts with
  | nil => exact id
  | cons a texts ih => exact fun h ↦ ih (symbol?_intern_of_some h a)

theorem Consistent.internAll (texts : List String) :
    ∀ {t : SymbolTable}, t.Consistent → (t.internAll texts).2.Consistent := by
  induction texts with
  | nil => exact id
  | cons a texts ih => exact fun h ↦ ih (h.intern a)

theorem Consistent.mem_texts_internAll {x : String} (texts : List String) :
    ∀ {t : SymbolTable}, t.Consistent →
      (x ∈ (t.internAll texts).2.texts ↔ x ∈ texts ∨ x ∈ t.texts) := by
  induction texts with
  | nil => simp [SymbolTable.internAll]
  | cons a texts ih =>
    intro t h
    rw [internAll_cons, ih (h.intern a), h.mem_texts_intern, List.mem_cons]
    tauto

/-- The symbols that were handed out are those that the table has in the end. -/
theorem map_symbol?_internAll (texts : List String) : ∀ t : SymbolTable,
    texts.map (t.internAll texts).2.symbol? = (t.internAll texts).1.map some := by
  induction texts with
  | nil => exact fun _ ↦ rfl
  | cons a texts ih =>
    intro t
    have ha : (t.intern a).2.symbol? a = some (t.intern a).1 := by rw [symbol?_intern, if_pos rfl]
    rw [internAll_cons, List.map_cons, List.map_cons, ih, symbol?_internAll_of_some texts ha]

/-! ## Both directions

Here the number of slots matters.  Two slots have the same symbol if their numbers differ by a
multiple of the number of symbols, and then the text of the symbol is that of the first of them. -/

/-- As long as there are slots, the two directions of a table are inverse to each other. -/
theorem Consistent.symbol?_iff_text? (h : t.Consistent) (hsize : t.texts.size ≤ UInt32.size)
    {x : String} {s : Symbol} : t.symbol? x = some s ↔ t.text? s = some x := by
  rw [h.symbol?_iff, text?]
  constructor
  · rintro ⟨i, hi, rfl⟩
    have hlt := (Array.getElem?_eq_some_iff.1 hi).1
    rwa [UInt32.toNat_ofNat_of_lt' (Nat.lt_of_lt_of_le hlt hsize)]
  · intro hx
    exact ⟨s.slot.toNat, hx, by rw [UInt32.ofNat_toNat]⟩

/-- The slots are as many as the distinct texts. -/
theorem Consistent.size_texts (h : t.Consistent) {texts : List String}
    (hmem : ∀ x, x ∈ t.texts ↔ x ∈ texts) : t.texts.size = texts.dedup.length := by
  have hperm : t.texts.toList.Perm texts.dedup :=
    (List.perm_ext_iff_of_nodup h.nodup texts.nodup_dedup).2 fun x ↦ by
      rw [Array.mem_toList_iff, hmem, List.mem_dedup]
  rw [← Array.length_toList, hperm.length_eq]

theorem consistent_initial : initial.Consistent := consistent_empty.internAll knownNames

/-- Every constant is the symbol of its text in the table that knows the names of the language. -/
theorem symbol?_initial {c : String × Symbol} (hc : c ∈ Symbol.constants) :
    initial.symbol? c.1 = some c.2 := by
  revert c
  decide

/-! ## All that is interned

The table after the names of the language and some texts.  Its slots are as many as the distinct
texts among all these. -/

/-- What was interned has its symbol in the table that comes out. -/
theorem symbol?_of_mem_zip {texts : List String} {symbols : List Symbol}
    (h : texts.map t.symbol? = symbols.map some) {a : String} {r : Symbol}
    (hmem : (a, r) ∈ texts.zip symbols) : t.symbol? a = some r := by
  obtain ⟨i, hi⟩ := List.mem_iff_getElem?.1 hmem
  obtain ⟨ha, hr⟩ := List.getElem?_zip_eq_some.1 hi
  have hi' := congrArg (·[i]?) h
  simpa [ha, hr] using hi'

section Initial

variable {texts : List String} (hdistinct : (knownNames ++ texts).dedup.length ≤ UInt32.size)

include hdistinct

theorem symbol?_iff_text?_initial (x : String) (s : Symbol) :
    (initial.internAll texts).2.symbol? x = some s ↔
      (initial.internAll texts).2.text? s = some x := by
  have hinitial : ∀ x, x ∈ initial.texts ↔ x ∈ knownNames := fun x ↦ by
    rw [initial, consistent_empty.mem_texts_internAll]
    simp [empty]
  have hconsistent := consistent_initial.internAll texts
  have hsize : (initial.internAll texts).2.texts.size = (knownNames ++ texts).dedup.length :=
    hconsistent.size_texts fun x ↦ by
      rw [consistent_initial.mem_texts_internAll, hinitial, List.mem_append, or_comm]
  exact hconsistent.symbol?_iff_text? (hsize ▸ hdistinct)

/-- It stays the symbol of that text, and of no other. -/
theorem symbol?_constant_iff {c : String × Symbol} (hc : c ∈ Symbol.constants) (x : String) :
    (initial.internAll texts).2.symbol? x = some c.2 ↔ x = c.1 := by
  have hinverse := symbol?_iff_text?_initial hdistinct
  have hc' := symbol?_internAll_of_some texts (symbol?_initial hc)
  constructor
  · intro hx
    exact Option.some.inj (((hinverse x c.2).1 hx).symm.trans ((hinverse c.1 c.2).1 hc'))
  · rintro rfl
    exact hc'

end Initial

/-- **Interning is a stable bijection.**  Let texts be interned, one after the other, in the table
that knows the names of the language, and let no more texts be distinct, these names among them,
than there are slots.  Two of the symbols are equal exactly if their texts are, wherever in the
sequence they stand.  A symbol has its text in the end, whatever came after it, and it has a type
exactly if its text is the name of that.  The two directions of the table are inverse to each other,
and every constant is the symbol of the text it is meant for and of no other. -/
theorem internAll_bijective {texts : List String} {symbols : List Symbol}
    (hrun : initial.internAll texts = (symbols, t))
    (hdistinct : (knownNames ++ texts).dedup.length ≤ UInt32.size) :
    symbols.length = texts.length ∧
    (∀ {a b : String} {r s : Symbol}, (a, r) ∈ texts.zip symbols → (b, s) ∈ texts.zip symbols →
      (r = s ↔ a = b)) ∧
    (∀ {a : String} {r : Symbol}, (a, r) ∈ texts.zip symbols →
      t.text? r = some a ∧ ∀ ty : Ty, r.ty? = some ty ↔ a = ty.name) ∧
    (∀ (x : String) (s : Symbol), t.symbol? x = some s ↔ t.text? s = some x) ∧
    ∀ c ∈ Symbol.constants, t.text? c.2 = some c.1 ∧ ∀ x, t.symbol? x = some c.2 ↔ x = c.1 := by
  obtain ⟨rfl, rfl⟩ := Prod.mk.inj hrun
  have hsymbol := map_symbol?_internAll texts initial
  have hinverse := symbol?_iff_text?_initial hdistinct
  refine ⟨by simpa using congrArg List.length hsymbol.symm, fun {a b r s} ha hb ↦ ?_,
    fun {a r} ha ↦ ?_, hinverse, fun c hc ↦ ?_⟩
  · have ha' := symbol?_of_mem_zip hsymbol ha
    have hb' := symbol?_of_mem_zip hsymbol hb
    constructor
    · rintro rfl
      exact Option.some.inj (((hinverse a r).1 ha').symm.trans ((hinverse b r).1 hb'))
    · rintro rfl
      exact Option.some.inj (ha'.symm.trans hb')
  · have ha' := symbol?_of_mem_zip hsymbol ha
    refine ⟨(hinverse a r).1 ha', fun ty ↦ ?_⟩
    rw [Symbol.ty?_eq_some_iff, ← symbol?_constant_iff hdistinct (Symbol.mem_constants_ofTy ty) a,
      ha', Option.some.injEq]
  · have hc' := symbol?_constant_iff hdistinct hc
    exact ⟨(hinverse c.1 c.2).1 ((hc' c.1).2 rfl), hc'⟩

theorem internAll_bijective_repeated :
    (knownNames ++ ["x", "Int", "x", "main"]).dedup.length ≤ UInt32.size ∧
      ∃ t, initial.internAll ["x", "Int", "x", "main"] = ([⟨7⟩, .int, ⟨7⟩, .main], t) ∧
        t.text? ⟨7⟩ = some "x" ∧ ∀ x, t.symbol? x = some .void ↔ x = "Void" := by
  have hdistinct : (knownNames ++ ["x", "Int", "x", "main"]).dedup.length ≤ UInt32.size := by decide
  have hrun : initial.internAll ["x", "Int", "x", "main"] = ([⟨7⟩, .int, ⟨7⟩, .main], _) := rfl
  obtain ⟨-, -, htext, -, hconstant⟩ := internAll_bijective hrun hdistinct
  exact ⟨hdistinct, _, hrun, (htext (by decide)).1, (hconstant ("Void", .void) (by decide)).2⟩

end SymbolTable
end Typewright
