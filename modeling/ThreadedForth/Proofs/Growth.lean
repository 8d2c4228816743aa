import ThreadedForth.Dictionary.Edit
import ThreadedForth.Proofs.Outcome
/-!
# ThreadedForth.Proofs.Growth

A dictionary only ever grows, whoever uses it and however.

The interpreter keeps an order between its dictionary and its mode, and much follows from that. What
is shown here needs no such order. A host may begin one definition inside another, seal the word
that is active, mark or extend entries through handles that count from the end, and go on after any
of this has failed (`Dictionary.Operation`). Whatever it does, an operation either appends an entry
or changes one entry in a way that adds to it and takes nothing away (`Word.Becomes`), and one that
fails does nothing at all. The rest is an induction on the operations (`Dictionary.grows_after`).
-/

namespace ThreadedForth

/-! ### Entries -/

/-- What an entry may turn into. -/
structure Word.Becomes (w w' : Word) : Prop where
  /-- It keeps its name. -/
  name_eq : w'.name = w.name
  /-- It keeps its handle. -/
  handle_eq : w'.handle = w.handle
  /-- Its code grows at the end, if it grows. -/
  code : w.code <+: w'.code
  /-- Once sealed it stays sealed, and its code does not grow. -/
  of_sealed : w.sealed = true → w'.sealed = true ∧ w'.code = w.code
  /-- Once hidden it stays hidden. -/
  of_hidden : w.hidden = true → w'.hidden = true
  /-- Once immediate it stays immediate. -/
  of_immediate : w.immediate = true → w'.immediate = true

namespace Word

theorem Becomes.refl (w : Word) : w.Becomes w :=
  ⟨rfl, rfl, List.prefix_refl _, fun h => ⟨h, rfl⟩, id, id⟩

theorem Becomes.trans {w₁ w₂ w₃ : Word} (h₁ : w₁.Becomes w₂) (h₂ : w₂.Becomes w₃) :
    w₁.Becomes w₃ where
  name_eq := h₂.name_eq.trans h₁.name_eq
  handle_eq := h₂.handle_eq.trans h₁.handle_eq
  code := h₁.code.trans h₂.code
  of_sealed := by
    intro hsealed
    obtain ⟨hsealed₂, hcode₂⟩ := h₁.of_sealed hsealed
    obtain ⟨hsealed₃, hcode₃⟩ := h₂.of_sealed hsealed₂
    exact ⟨hsealed₃, hcode₃.trans hcode₂⟩
  of_hidden := fun h => h₂.of_hidden (h₁.of_hidden h)
  of_immediate := fun h => h₂.of_immediate (h₁.of_immediate h)

/-- To close a word is allowed at any time, and changes no code. -/
theorem becomes_close (w : Word) : w.Becomes w.close :=
  ⟨rfl, rfl, List.prefix_refl _, fun _ => ⟨rfl, rfl⟩, id, id⟩

/-- To hide a word is allowed at any time, and makes its code final. -/
theorem becomes_bury (w : Word) : w.Becomes w.bury :=
  ⟨rfl, rfl, List.prefix_refl _, fun _ => ⟨rfl, rfl⟩, fun _ => rfl, id⟩

theorem becomes_markImmediate (w : Word) : w.Becomes w.markImmediate :=
  ⟨rfl, rfl, List.prefix_refl _, fun h => ⟨h, rfl⟩, id, fun _ => rfl⟩

/-- Only an entry that is not sealed takes a cell. -/
theorem becomes_push {w : Word} (h : w.sealed = false) (c : Cell) : w.Becomes (w.push c) :=
  ⟨rfl, rfl, List.prefix_append _ _, fun hsealed => absurd hsealed (by simp [h]), id, id⟩

end Word

namespace Dictionary

/-! ### Operations -/

/-- Anything that can be done to a dictionary: the edits of a host, and two operations that edits
describe in part only. -/
inductive Operation where
  /-- An edit of a host. -/
  | edit (e : Edit)
  /-- Append a finished word with one primitive, whichever it is. -/
  | addPrimitive (p : Primitive) (immediate : Bool)
  /-- Add a cell to the code of an entry, be it a reference that leads nowhere. -/
  | extend (handle : Int) (c : Cell)
  deriving DecidableEq, Repr

/-- Perform an operation. -/
def operate (d : Dictionary) : Operation → Outcome Dictionary Reply
  | .edit e => d.perform e
  | .addPrimitive p immediate => .ok (.count d.size) (d.addPrimitive p immediate)
  | .extend handle c =>
    match position? d.size handle with
    | none => .fail (.noItem handle) d
    | some k => (d.extend k c).map fun _ => .nothing

/-- The dictionary after some operations, each of them succeeding or failing. -/
def after : Dictionary → List Operation → Dictionary
  | d, [] => d
  | d, o :: os => after (d.operate o).state os

/-! ### Growth -/

variable {d d' : Dictionary} {k : Nat} {f : Word → Word} {a : Option Nat}

/-- Every entry of `d` is there in `d'` with its index, and has become what it may. -/
def Grows (d d' : Dictionary) : Prop :=
  ∀ ⦃i : Nat⦄ ⦃w : Word⦄, d.entries[i]? = some w → ∃ w', d'.entries[i]? = some w' ∧ w.Becomes w'

theorem Grows.refl (d : Dictionary) : d.Grows d := fun _ w hw => ⟨w, hw, .refl w⟩

/-- Growth composes, since what an entry may become does. -/
theorem Grows.trans {d₁ d₂ d₃ : Dictionary} (h₁ : d₁.Grows d₂) (h₂ : d₂.Grows d₃) :
    d₁.Grows d₃ := by
  intro i w hw
  obtain ⟨w₂, hw₂, hbecomes₂⟩ := h₁ hw
  obtain ⟨w₃, hw₃, hbecomes₃⟩ := h₂ hw₂
  exact ⟨w₃, hw₃, hbecomes₂.trans hbecomes₃⟩

/-- A dictionary that grows has no fewer entries, for its last one is still there. -/
theorem Grows.size_le (h : d.Grows d') : d.size ≤ d'.size := by
  refine Nat.le_of_not_lt fun hlt => ?_
  obtain ⟨w, hw⟩ : ∃ w, d.entries[d'.size]? = some w := ⟨_, List.getElem?_eq_getElem hlt⟩
  obtain ⟨w', hw', -⟩ := h hw
  exact absurd (List.getElem?_eq_some_iff.1 hw').1 (Nat.lt_irrefl _)

/-- A new entry at the end leaves the others where they were. -/
theorem grows_append (d : Dictionary) (e : Word) (a : Option Nat) :
    d.Grows ⟨d.entries ++ [e], a⟩ := by
  intro i w hw
  have hlt : i < d.entries.length := (List.getElem?_eq_some_iff.1 hw).1
  exact ⟨w, (List.getElem?_append_left hlt).trans hw, .refl w⟩

/-- To change one entry in a way that is allowed is growth. -/
theorem grows_modify (hf : ∀ w, d.entries[k]? = some w → w.Becomes (f w)) :
    d.Grows ⟨d.entries.modify k f, a⟩ := by
  intro i w hw
  show ∃ w', (d.entries.modify k f)[i]? = some w' ∧ w.Becomes w'
  by_cases hi : k = i
  · subst hi
    exact ⟨f w, by rw [List.getElem?_modify_eq, hw]; rfl, hf w hw⟩
  · exact ⟨w, by rw [List.getElem?_modify_ne f d.entries hi, hw], .refl w⟩

/-! ### Single operations -/

/-- The operation makes the dictionary grow; if it fails, it leaves the dictionary alone. -/
def Careful {α : Type} (d : Dictionary) (x : Outcome Dictionary α) : Prop :=
  d.Grows x.state ∧ ∀ f, x.fault? = some f → x.state = d

section

variable {α β : Type}

theorem Careful.ok {r : α} (h : d.Grows d') : d.Careful (.ok r d') :=
  ⟨h, fun f hf => absurd hf (by simp)⟩

theorem Careful.fail (f : Fault) : d.Careful (.fail f d : Outcome Dictionary α) :=
  ⟨.refl d, fun _ _ => rfl⟩

/-- What an operation answers does not matter for what it does to the dictionary. -/
theorem Careful.map {x : Outcome Dictionary α} (h : d.Careful x) (g : α → β) :
    d.Careful (x.map g) := by
  cases x with
  | ok r d' => exact .ok h.1
  | fail f d' =>
      obtain rfl : d' = d := h.2 f rfl
      exact .fail f

end

/-- A cell is added to a word that is still open, or nothing happens. -/
theorem careful_extend (d : Dictionary) (k : Nat) (c : Cell) : d.Careful (d.extend k c) := by
  cases hw : d.entries[k]? with
  | none =>
      simp only [extend, hw]
      exact .fail _
  | some w =>
      simp only [extend, hw]
      cases hsealed : w.sealed with
      | true => exact .fail _
      | false =>
          refine .ok (grows_modify fun v hv => ?_)
          obtain rfl : w = v := Option.some.inj (hw.symm.trans hv)
          exact Word.becomes_push hsealed c

/-- A handle that leads nowhere changes nothing; one that leads to an entry changes this entry. -/
theorem careful_modifyAt (d : Dictionary) (handle : Int) (hf : ∀ w : Word, w.Becomes (f w)) :
    d.Careful (d.modifyAt handle f) := by
  cases hk : position? d.size handle with
  | none =>
      simp only [modifyAt, hk]
      exact .fail _
  | some k =>
      simp only [modifyAt, hk]
      exact .ok (grows_modify fun w _ => hf w)

theorem careful_inspectAt (d : Dictionary) (handle : Int) (f : Word → Reply) :
    d.Careful (d.inspectAt handle f) := by
  cases hw : d.word? handle with
  | none =>
      simp only [inspectAt, hw]
      exact .fail _
  | some w =>
      simp only [inspectAt, hw]
      exact .ok (.refl d)

/-- The entry is looked up first and then the cell, so a bad index of either sort changes nothing.
-/
theorem careful_append (d : Dictionary) (handle : Int) (cell : CellSource) :
    d.Careful (d.append handle cell) := by
  cases hk : position? d.size handle with
  | none =>
      simp only [append, hk]
      exact .fail _
  | some k =>
      cases hc : d.cell cell with
      | error i =>
          simp only [append, hk, hc]
          exact .fail _
      | ok c =>
          simp only [append, hk, hc]
          exact (d.careful_extend k c).map _

/-- To end a definition closes the open word, if there is one. -/
theorem grows_finish (d : Dictionary) : d.Grows d.finish := by
  cases hk : d.active with
  | none =>
      rw [finish_of_active_eq_none hk]
      exact .refl d
  | some k =>
      simp only [finish, hk]
      exact grows_modify fun w _ => w.becomes_close

/-- To abandon a definition hides the open word, if there is one, and removes nothing. -/
theorem grows_abandon (d : Dictionary) : d.Grows d.abandon := by
  cases hk : d.active with
  | none =>
      rw [abandon_of_active_eq_none hk]
      exact .refl d
  | some k =>
      simp only [abandon, hk]
      exact grows_modify fun w _ => w.becomes_bury

theorem careful_perform (d : Dictionary) (e : Edit) : d.Careful (d.perform e) := by
  cases e with
  | addPrimitive name immediate => exact .ok (d.grows_append _ _)
  | define name => exact .ok (d.grows_append _ _)
  | markImmediate handle => exact d.careful_modifyAt handle Word.becomes_markImmediate
  | close handle => exact d.careful_modifyAt handle Word.becomes_close
  | finish => exact .ok d.grows_finish
  | abandon => exact .ok d.grows_abandon
  | word handle => exact d.careful_inspectAt handle _
  | summary handle => exact d.careful_inspectAt handle _
  | append handle cell => exact d.careful_append handle cell
  | lookup | names | size | dump => exact .ok (.refl d)

/-- Every operation on a dictionary is growth, and one that fails is none at all. -/
theorem careful_operate (d : Dictionary) (o : Operation) : d.Careful (d.operate o) := by
  cases o with
  | edit e => exact d.careful_perform e
  | addPrimitive p immediate => exact .ok (d.grows_append _ _)
  | extend handle c =>
      cases hk : position? d.size handle with
      | none =>
          simp only [operate, hk]
          exact .fail _
      | some k =>
          simp only [operate, hk]
          exact (d.careful_extend k c).map _

/-! ### Any number of operations -/

/-- Growth is carried along any number of operations, failed ones included. -/
theorem grows_after (os : List Operation) : ∀ d : Dictionary, d.Grows (d.after os) := by
  induction os with
  | nil => exact .refl
  | cons o os ih => exact fun d => (d.careful_operate o).1.trans (ih _)

/-- A dictionary is append-only. Let any operations be performed on any dictionary, each of them
succeeding or failing. Then there are no fewer entries than before, and every entry still has its
index and has become what it may. From there on, an operation that fails changes nothing, and a cell
for a sealed entry is refused. -/
theorem append_only {os : List Operation} (h : d.after os = d') :
    d.size ≤ d'.size ∧
    (∀ (i : Nat) (w : Word), d.entries[i]? = some w → ∃ w' : Word, d'.entries[i]? = some w' ∧
      w'.name = w.name ∧ w'.handle = w.handle ∧ w.code <+: w'.code ∧
      (w.sealed = true → w'.sealed = true ∧ w'.code = w.code) ∧
      (w.hidden = true → w'.hidden = true) ∧ (w.immediate = true → w'.immediate = true)) ∧
    (∀ o f, (d'.operate o).fault? = some f → (d'.operate o).state = d') ∧
    ∀ handle k (w : Word) c, position? d'.size handle = some k → d'.entries[k]? = some w →
      w.sealed = true →
      d'.operate (.extend handle c) = .fail (.raise (.alreadyFinished w.name)) d' := by
  have hgrows : d.Grows d' := h ▸ d.grows_after os
  refine ⟨hgrows.size_le, fun i w hw => ?_, fun o => (d'.careful_operate o).2, ?_⟩
  · obtain ⟨w', hw', hbecomes⟩ := hgrows hw
    exact ⟨w', hw', hbecomes.name_eq, hbecomes.handle_eq, hbecomes.code, hbecomes.of_sealed,
      hbecomes.of_hidden, hbecomes.of_immediate⟩
  · intro handle k w c hk hw hsealed
    simp only [operate, hk, extend, hw, hsealed, if_true]
    rfl

/-- A definition of `b` is begun inside that of `a`, and sealed by a handle that counts from the
end. Then `b` refuses a cell and `a` still takes one, before `b` is abandoned. -/
theorem append_only_nested :
    ∃ (d d' : Dictionary) (os : List Operation),
      d = after {} [.edit (.define "a"), .extend 0 (.literal (.int 1)), .edit (.define "b"),
        .edit (.close (-1))] ∧
      os = [.extend (-1) (.literal (.int 2)), .extend (-2) (.word ⟨-7, "c"⟩),
        .edit (.markImmediate 2), .edit .abandon] ∧
      d.after os = d' ∧
      (∃ w : Word, d'.entries[0]? = some w ∧ w.name = "a" ∧ [.literal (.int 1)] <+: w.code) ∧
      (∃ w : Word, d'.entries[1]? = some w ∧ w.name = "b" ∧ w.sealed = true ∧ w.code = []) ∧
      d'.operate (.extend (-1) (.literal (.int 2))) = .fail (.raise (.alreadyFinished "b")) d' := by
  let d : Dictionary :=
    ⟨[⟨"a", 0, false, false, false, [.literal (.int 1)]⟩, ⟨"b", 1, false, false, true, []⟩], some 1⟩
  let d' : Dictionary :=
    ⟨[⟨"a", 0, false, false, false, [.literal (.int 1), .word ⟨-7, "c"⟩]⟩,
      ⟨"b", 1, false, true, true, []⟩], none⟩
  let os : List Operation :=
    [.extend (-1) (.literal (.int 2)), .extend (-2) (.word ⟨-7, "c"⟩), .edit (.markImmediate 2),
      .edit .abandon]
  have hos : d.after os = d' := rfl
  obtain ⟨-, hentries, -, hrefuse⟩ := append_only hos
  obtain ⟨w, hw, hname, -, hcode, -⟩ := hentries 0 ⟨"a", 0, false, false, false, _⟩ rfl
  obtain ⟨v, hv, hname', -, -, hsealed, -⟩ := hentries 1 ⟨"b", 1, false, false, true, []⟩ rfl
  exact ⟨d, d', os, rfl, rfl, hos, ⟨w, hw, hname, hcode⟩, ⟨v, hv, hname', hsealed rfl⟩,
    hrefuse (-1) 1 ⟨"b", 1, false, true, true, []⟩ (.literal (.int 2)) rfl rfl rfl⟩

end Dictionary

end ThreadedForth
