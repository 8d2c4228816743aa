import ThreadedForth.Proofs.Session
/-!
# ThreadedForth.Proofs.Dictionary

The order a dictionary keeps as long as only source text changes it.

* A dictionary *offers* an entry that is finished and visible (`Dictionary.Offers`). Look-ups
  find only offered entries, apart from one that sees the open word.
* `Dictionary.Coherent` says what an open word means: it is the last entry, neither finished nor
  hidden, and the interpreter is compiling; all other entries are finished. It also says that
  references in code are honest: they point at offered entries of the same name, which are not
  immediate and older than the code.
* `Dictionary.Keeps` says that nothing offered is ever touched again. Every reference stays
  right because of that.

The operations that change a dictionary do one of two things: they append an entry, or they
change the open word alone. For each of the two there is one lemma about coherence and one about
what is kept.
-/

namespace ThreadedForth

namespace Dictionary

variable {d d' : Dictionary} {mode : Mode} {k : Nat} {w : Word}

/-- The entry `w` at index `k` is finished and visible. -/
def Offers (d : Dictionary) (k : Nat) (w : Word) : Prop :=
  d.entries[k]? = some w ∧ w.sealed = true ∧ w.hidden = false

/-- Every entry that `d` offers, `d'` offers unchanged. -/
def Keeps (d d' : Dictionary) : Prop := ∀ ⦃k : Nat⦄ ⦃w : Word⦄, d.Offers k w → d'.Offers k w

/-- The reference is to an entry that is offered, under the entry's own name. -/
def Denotes (d : Dictionary) (r : WordRef) : Prop := ∃ k w, d.Offers k w ∧ r = ⟨k, w.name⟩

/-- A cell that may stand in the code of the entry at index `i`. -/
def Admits (d : Dictionary) (i : Nat) : Cell → Prop
  | .primitive _ => True
  | .word r => ∃ k w, d.Offers k w ∧ r = ⟨k, w.name⟩ ∧ k < i ∧ w.immediate = false
  | .literal v => ∃ n, v = .int n

/-- The order kept between a dictionary and the mode of its interpreter. -/
structure Coherent (d : Dictionary) (mode : Mode) : Prop where
  /-- The handle of an entry is its index. -/
  handle_eq : ∀ {i : Nat} {w : Word}, d.entries[i]? = some w → w.handle = i
  /-- Every entry but the open one is finished. -/
  sealed_of_ne : ∀ {i : Nat} {w : Word}, d.entries[i]? = some w → d.active ≠ some i →
    w.sealed = true
  /-- While a word is open the interpreter is compiling; the word is the last entry, not
  finished and not hidden. -/
  of_active : ∀ {k : Nat}, d.active = some k → mode = .compile ∧ k + 1 = d.size ∧
    ∃ w, d.entries[k]? = some w ∧ w.sealed = false ∧ w.hidden = false
  /-- Code refers to older words only. -/
  admits : ∀ {i : Nat} {w : Word}, d.entries[i]? = some w → ∀ c ∈ w.code, d.Admits i c

/-! ### Keeping what is offered -/

theorem Keeps.refl (d : Dictionary) : d.Keeps d := fun _ _ h => h

theorem Keeps.trans {d₁ d₂ d₃ : Dictionary} (h₁ : d₁.Keeps d₂) (h₂ : d₂.Keeps d₃) : d₁.Keeps d₃ :=
  fun _ _ h => h₂ (h₁ h)

theorem Denotes.mono {r : WordRef} (h : d.Denotes r) (hkeep : d.Keeps d') : d'.Denotes r := by
  obtain ⟨k, w, hw, hr⟩ := h
  exact ⟨k, w, hkeep hw, hr⟩

/-- A cell that may stand in code may stand there for good, since what it refers to is kept. -/
theorem Admits.mono {i : Nat} {c : Cell} (h : d.Admits i c) (hkeep : d.Keeps d') :
    d'.Admits i c := by
  cases c with
  | primitive p => trivial
  | literal v => exact h
  | word r =>
      obtain ⟨k, w, hw, hrest⟩ := h
      exact ⟨k, w, hkeep hw, hrest⟩

/-- A new entry at the end leaves all offers as they were. -/
theorem keeps_append (d : Dictionary) (e : Word) (a : Option Nat) :
    d.Keeps ⟨d.entries ++ [e], a⟩ := by
  intro k w hw
  have hlt : k < d.entries.length := (List.getElem?_eq_some_iff.1 hw.1).1
  refine ⟨?_, hw.2⟩
  rw [List.getElem?_append_left hlt]
  exact hw.1

/-! ### Look-ups -/

theorem answersTo_iff {name : String} :
    w.answersTo name = true ↔ w.name = name ∧ w.hidden = false := by
  simp [Word.answersTo]

namespace Coherent

/-- While interpreting, no word is open. -/
theorem active_eq_none (h : d.Coherent .interpret) : d.active = none := by
  cases hk : d.active with
  | none => rfl
  | some k => exact absurd (h.of_active hk).1 (by simp)

/-- What a look-up below the open word finds is offered, under the name that was looked up. -/
theorem offers_of_lookupOutside (h : d.Coherent mode) {name : String}
    (hl : d.lookupOutside name = some k) : ∃ w, d.Offers k w ∧ w.name = name := by
  obtain ⟨⟨w, hw, ha⟩, hlt⟩ := lookupOutside_eq_some hl
  obtain ⟨hname, hvisible⟩ := answersTo_iff.1 ha
  -- It is below the open word, hence not the open word itself.
  have hne : d.active ≠ some k := fun hk => Nat.lt_irrefl k (hlt k hk)
  exact ⟨w, ⟨hw, h.sealed_of_ne hw hne, hvisible⟩, hname⟩

/-- What a look-up found may be called: it is finished and visible. -/
theorem offers_of_allowed {m : Machine} (h : m.state.dict.Coherent m.state.mode)
    (hl : (Act.word k).Allowed m) : ∃ w, m.state.dict.Offers k w := by
  obtain ⟨name, hl | ⟨hmode, hl⟩⟩ := hl
  · obtain ⟨w, hw, -⟩ := h.offers_of_lookupOutside hl
    exact ⟨w, hw⟩
  · rw [hmode] at h
    rw [← lookupOutside_of_active_eq_none h.active_eq_none] at hl
    obtain ⟨w, hw, -⟩ := h.offers_of_lookupOutside hl
    exact ⟨w, hw⟩

/-- A word that is found for a name is referred to honestly. -/
theorem denotes_ref (h : d.Coherent mode) (hw : d.Offers k w) : d.Denotes w.ref := by
  refine ⟨k, w, hw, ?_⟩
  rw [Word.ref, h.handle_eq hw.1]

/-- What a token compiles may stand in the open word. -/
theorem admits_of_compiles (h : d.Coherent mode) {c : Cell} (hk : d.active = some k)
    (hc : d.Compiles c) : d.Admits k c := by
  cases hc with
  | literal n => exact ⟨n, rfl⟩
  | @word name i w hl hw himm =>
      obtain ⟨w', hw', -⟩ := h.offers_of_lookupOutside hl
      obtain rfl : w = w' := Option.some.inj (hw.symm.trans hw'.1)
      refine ⟨i, w, hw', ?_, (lookupOutside_eq_some hl).2 k hk, himm⟩
      rw [Word.ref, h.handle_eq hw]

/-! ### Appending an entry

`e` is appended; afterwards `a` is active. -/

section

variable {e : Word} {a : Option Nat}

/-- An entry of the longer list is an old one or the new one. -/
theorem entries_append_eq_some {i : Nat} (hw : (d.entries ++ [e])[i]? = some w) :
    d.entries[i]? = some w ∨ i = d.size ∧ e = w := by
  rw [List.getElem?_append] at hw
  split at hw
  · exact .inl hw
  next hge =>
    obtain ⟨hzero, hw⟩ := List.getElem?_eq_some_iff.1 hw
    simp only [List.length_cons, List.length_nil] at hzero
    exact .inr ⟨by simp only [size]; omega, by simpa using hw⟩

/-- A new entry keeps the order, if its code may stand there and it is either finished or the open
word. -/
theorem append (h : d.Coherent mode) (hnone : d.active = none) {mode' : Mode}
    (hhandle : e.handle = d.size) (hcode : ∀ c ∈ e.code, d.Admits d.size c)
    (hactive : (a = none ∧ e.sealed = true) ∨
      (a = some d.size ∧ mode' = .compile ∧ e.sealed = false ∧ e.hidden = false)) :
    Coherent ⟨d.entries ++ [e], a⟩ mode' where
  handle_eq := by
    intro i w hw
    rcases entries_append_eq_some hw with hw | ⟨rfl, rfl⟩
    · exact h.handle_eq hw
    · exact hhandle
  sealed_of_ne := by
    intro i w hw hne
    rcases entries_append_eq_some hw with hw | ⟨rfl, rfl⟩
    · exact h.sealed_of_ne hw (by simp [hnone])
    · rcases hactive with ⟨-, hsealed⟩ | ⟨rfl, -⟩
      · exact hsealed
      · exact absurd rfl hne
  of_active := by
    intro k hk
    rcases hactive with ⟨rfl, -⟩ | ⟨rfl, rfl, hopen, hvisible⟩
    · cases hk
    · obtain rfl : d.size = k := Option.some.inj hk
      exact ⟨rfl, by simp [size], e, List.getElem?_concat_length, hopen, hvisible⟩
  admits := by
    intro i w hw c hc
    rcases entries_append_eq_some hw with hw | ⟨rfl, rfl⟩
    · exact (h.admits hw c hc).mono (keeps_append d e a)
    · exact (hcode c hc).mono (keeps_append d e a)

end

/-! ### Changing the open word

`f` changes the open word `k`; afterwards `a` is active. -/

section

variable {f : Word → Word} {a : Option Nat}

/-- The open word is not finished, so nothing that is offered changes. -/
theorem keeps_modify (h : d.Coherent mode) (hk : d.active = some k) :
    d.Keeps ⟨d.entries.modify k f, a⟩ := by
  intro i w hw
  -- What is offered is finished, and the open word is not.
  have hne : k ≠ i := by
    rintro rfl
    obtain ⟨-, -, v, hv, hopen, -⟩ := h.of_active hk
    obtain rfl : v = w := Option.some.inj (hv.symm.trans hw.1)
    exact absurd hw.2.1 (by simp [hopen])
  exact ⟨by rw [List.getElem?_modify_ne f d.entries hne]; exact hw.1, hw.2⟩

/-- An entry after a change is one that was not touched, or the changed one. -/
theorem entries_modify_eq_some {i : Nat} (hw : (d.entries.modify k f)[i]? = some w) :
    k ≠ i ∧ d.entries[i]? = some w ∨ k = i ∧ ∃ v, d.entries[i]? = some v ∧ f v = w := by
  by_cases hne : k = i
  · subst hne
    rw [List.getElem?_modify_eq] at hw
    exact .inr ⟨rfl, by simpa using hw⟩
  · rw [List.getElem?_modify_ne f d.entries hne] at hw
    exact .inl ⟨hne, hw⟩

/-- A change to the open word keeps the order, if it adds nothing to the code that may not stand
there, and leaves the word either finished or open. -/
theorem modify (h : d.Coherent mode) (hk : d.active = some k) {mode' : Mode}
    (hhandle : ∀ v, (f v).handle = v.handle)
    (hcode : ∀ v, ∀ c ∈ (f v).code, c ∈ v.code ∨ d.Admits k c)
    (hactive : (a = none ∧ ∀ v, (f v).sealed = true) ∨
      (a = some k ∧ mode' = .compile ∧ ∀ v, (f v).sealed = v.sealed ∧ (f v).hidden = v.hidden)) :
    Coherent ⟨d.entries.modify k f, a⟩ mode' where
  handle_eq := by
    intro i w hw
    rcases entries_modify_eq_some hw with ⟨-, hw⟩ | ⟨-, v, hv, rfl⟩
    · exact h.handle_eq hw
    · rw [hhandle]
      exact h.handle_eq hv
  sealed_of_ne := by
    intro i w hw hne
    rcases entries_modify_eq_some hw with ⟨hki, hw⟩ | ⟨rfl, v, hv, rfl⟩
    · exact h.sealed_of_ne hw (by simpa [hk] using hki)
    · rcases hactive with ⟨-, hsealed⟩ | ⟨rfl, -⟩
      · exact hsealed v
      · exact absurd rfl hne
  of_active := by
    intro k' hk'
    rcases hactive with ⟨rfl, -⟩ | ⟨rfl, rfl, hflags⟩
    · cases hk'
    · obtain rfl : k = k' := Option.some.inj hk'
      obtain ⟨-, hlast, v, hv, hopen, hvisible⟩ := h.of_active hk
      refine ⟨rfl, by simpa [size] using hlast, f v, ?_, ?_, ?_⟩
      · rw [List.getElem?_modify_eq, hv]
        rfl
      · rw [(hflags v).1, hopen]
      · rw [(hflags v).2, hvisible]
  admits := by
    intro i w hw c hc
    have hkeep : d.Keeps ⟨d.entries.modify k f, a⟩ := h.keeps_modify hk
    rcases entries_modify_eq_some hw with ⟨-, hw⟩ | ⟨rfl, v, hv, rfl⟩
    · exact (h.admits hw c hc).mono hkeep
    · rcases hcode v c hc with hc | hc
      · exact (h.admits hv c hc).mono hkeep
      · exact hc.mono hkeep

end

/-! ### The operations of the interpreter -/

/-- Without an open word any mode will do. -/
theorem of_active_eq_none (h : d.Coherent mode) (hnone : d.active = none) (mode' : Mode) :
    d.Coherent mode' :=
  ⟨h.handle_eq, h.sealed_of_ne, fun hk => by simp [hnone] at hk, h.admits⟩

theorem define (h : d.Coherent mode) (hnone : d.active = none) (name : String) :
    (d.define name).Coherent .compile :=
  h.append hnone rfl (fun _ hc => absurd hc List.not_mem_nil) (.inr ⟨rfl, rfl, rfl, rfl⟩)

theorem addPrimitive (h : d.Coherent mode) (hnone : d.active = none) (p : Primitive)
    (immediate : Bool) : (d.addPrimitive p immediate).Coherent mode := by
  refine h.append hnone rfl (fun c hc => ?_) (.inl ⟨hnone, rfl⟩)
  obtain rfl := List.mem_singleton.1 hc
  trivial

/-- To finish the open word puts the dictionary in order for any mode. -/
theorem finish (h : d.Coherent mode) (mode' : Mode) : d.finish.Coherent mode' := by
  unfold Dictionary.finish
  split
  next hnone => exact h.of_active_eq_none hnone mode'
  next k hk => exact h.modify hk (fun _ => rfl) (fun _ c hc => .inl hc) (.inl ⟨rfl, fun _ => rfl⟩)

theorem keeps_finish (h : d.Coherent mode) : d.Keeps d.finish := by
  unfold Dictionary.finish
  split
  · exact Keeps.refl d
  next k hk => exact h.keeps_modify hk

/-- To hide the open word puts the dictionary in order for any mode, too. -/
theorem abandon (h : d.Coherent mode) (mode' : Mode) : d.abandon.Coherent mode' := by
  unfold Dictionary.abandon
  split
  next hnone => exact h.of_active_eq_none hnone mode'
  next k hk => exact h.modify hk (fun _ => rfl) (fun _ c hc => .inl hc) (.inl ⟨rfl, fun _ => rfl⟩)

theorem keeps_abandon (h : d.Coherent mode) : d.Keeps d.abandon := by
  unfold Dictionary.abandon
  split
  · exact Keeps.refl d
  next k hk => exact h.keeps_modify hk

/-- The word of a definition that was just begun may be made immediate. -/
theorem markImmediate (h : d.Coherent mode) (hk : d.active = some k) :
    (d.modify k Word.markImmediate).Coherent mode := by
  refine h.modify hk (fun _ => rfl) (fun _ c hc => .inl hc) (.inr ⟨hk, (h.of_active hk).1, ?_⟩)
  exact fun _ => ⟨rfl, rfl⟩

/-- The open word takes a cell. -/
theorem extend_eq_ok (h : d.Coherent mode) (hk : d.active = some k) (c : Cell) :
    d.extend k c = .ok () (d.modify k (·.push c)) := by
  obtain ⟨-, -, w, hw, hopen, -⟩ := h.of_active hk
  simp [extend, hw, hopen]

theorem push (h : d.Coherent mode) (hk : d.active = some k) {c : Cell} (hc : d.Admits k c) :
    (d.modify k (·.push c)).Coherent mode := by
  refine h.modify hk (fun _ => rfl) (fun v b hb => ?_) (.inr ⟨hk, (h.of_active hk).1, ?_⟩)
  · rcases List.mem_append.1 hb with hb | hb
    · exact .inl hb
    · exact .inr (List.mem_singleton.1 hb ▸ hc)
  · exact fun _ => ⟨rfl, rfl⟩

end Coherent

/-! ### The dictionary of a fresh interpreter -/

/-- The dictionary of a fresh interpreter is in order. -/
theorem coherent_initial : initial.Coherent .interpret := by
  have hall : ∀ (ps : List Primitive) {d : Dictionary}, d.Coherent .interpret → d.active = none →
      (ps.foldl (fun d p => d.addPrimitive p p.isImmediate) d).Coherent .interpret := by
    intro ps
    induction ps with
    | nil => exact fun h _ => h
    | cons p ps ih => exact fun h hnone => ih (h.addPrimitive hnone p p.isImmediate) hnone
  refine hall _ ⟨?_, ?_, ?_, ?_⟩ rfl <;> simp

end Dictionary

end ThreadedForth
