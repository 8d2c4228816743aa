import ThreadedForth.Primitive.Data
import ThreadedForth.Proofs.Binding
/-!
# ThreadedForth.Proofs.Renumbering

A dictionary without one of its entries.

If the entry at `k` is taken out, the entries after it move down, and a handle above `k` becomes the
one below it (`lower`). `Dictionary.without` takes the entry out and renumbers everything that holds
a handle; `lower` does so for references, values, cells and words.

As long as the entry is hidden (`Dictionary.Buries`), nobody can tell the two dictionaries apart but
by the numbers: names are found at the renumbered handles, the list of names is the same, and every
change to another entry is the same change after renumbering. Data words and the source forms of
words do not depend on numbers at all.
-/

namespace ThreadedForth

/-! ### Handles -/

/-- What a handle becomes when the entry at `k` is taken out. -/
def lower (k h : Nat) : Nat := if k < h then h - 1 else h

theorem lower_of_lt {k h : Nat} (hh : h < k) : lower k h = h := if_neg (Nat.lt_asymm hh)

theorem lower_of_gt {k h : Nat} (hh : k < h) : lower k h = h - 1 := if_pos hh

/-- The reference after the entry at `k` is taken out. -/
def WordRef.lower (k : Nat) (r : WordRef) : WordRef :=
  { r with handle := if k < r.handle then r.handle - 1 else r.handle }

/-- A reference that leads to an entry is renumbered as the entry is. -/
theorem WordRef.lower_natCast (k h : Nat) (name : String) :
    WordRef.lower k ⟨h, name⟩ = ⟨ThreadedForth.lower k h, name⟩ := by
  simp only [lower, ThreadedForth.lower, Int.ofNat_lt, mk.injEq, and_true]
  split
  · omega
  · rfl

@[simp] theorem WordRef.describe_lower (k : Nat) (r : WordRef) :
    (r.lower k).describe = r.describe := rfl

/-- The value after the entry at `k` is taken out. -/
def Value.lower (k : Nat) : Value → Value
  | .ref r => .ref (r.lower k)
  | v => v

/-- What is printed of a value does not depend on numbers. -/
@[simp] theorem Value.describe?_lower (k : Nat) (v : Value) :
    (v.lower k).describe? = v.describe? := by
  cases v <;> rfl

/-- The cell after the entry at `k` is taken out. -/
def Cell.lower (k : Nat) : Cell → Cell
  | .word r => .word (r.lower k)
  | .literal v => .literal (v.lower k)
  | .primitive p => .primitive p

namespace Word

/-- The entry after the one at `k` is taken out. -/
def lower (k : Nat) (w : Word) : Word :=
  { w with handle := ThreadedForth.lower k w.handle, code := w.code.map (Cell.lower k) }

variable (k : Nat) (w : Word)

@[simp] theorem immediate_lower : (w.lower k).immediate = w.immediate := rfl
@[simp] theorem sealed_lower : (w.lower k).sealed = w.sealed := rfl
@[simp] theorem code_lower : (w.lower k).code = w.code.map (Cell.lower k) := rfl

@[simp] theorem ref_lower : (w.lower k).ref = w.ref.lower k :=
  (WordRef.lower_natCast k w.handle w.name).symm

/-- The source form of a word speaks of names only. -/
@[simp] theorem source?_lower : (w.lower k).source? = w.source? := by
  have hcells : (w.code.map (Cell.lower k)).mapM Cell.source? = w.code.mapM Cell.source? := by
    rw [List.mapM_map]
    congr 1
    funext c
    cases c with
    | literal v => exact v.describe?_lower k
    | _ => rfl
  unfold source?
  rw [code_lower, hcells]
  rfl

end Word

/-! ### Data words -/

/-- The stack after the entry at `k` is taken out. -/
def Stack.lower (k : Nat) (s : Stack) : Stack := s.map (Value.lower k)

/-- The operation does the same on a changed state, and changes the state it leaves behind. -/
def Outcome.Commutes {σ α : Type} (g : σ → σ) (f : σ → Outcome σ α) : Prop :=
  ∀ s, f (g s) = (f s).mapState g

/-- Two operations that commute with a change commute with it one after the other. -/
theorem Outcome.Commutes.bind {σ α β : Type} {g : σ → σ} {f : σ → Outcome σ α}
    {next : α → σ → Outcome σ β} (hf : Commutes g f) (hnext : ∀ a, Commutes g (next a)) :
    Commutes g fun s => (f s).bind next := by
  intro s
  show (f (g s)).bind next = ((f s).bind next).mapState g
  rw [hf s]
  cases f s with
  | ok a t => exact hnext a t
  | fail e t => rfl

namespace Stack

open Outcome (Commutes)

variable (k : Nat)

/-- Taking an integer commutes, because what it says of a value that is none has no numbers in it.
-/
theorem commutes_popInt (op : Option String) : Commutes (lower k) (popInt op) := by
  intro s
  cases s with
  | nil => rfl
  | cons v s => cases v <;> simp [lower, popInt, Value.lower, Value.describe?]

theorem commutes_binary (op : String) (f : Int → Int → Int) :
    Commutes (lower k) (binary op f) :=
  .bind (commutes_popInt k _) fun _ => .bind (commutes_popInt k _) fun _ _ => rfl

theorem commutes_division (op : String) (f : Int → Int → Int) :
    Commutes (lower k) (division op f) := by
  refine .bind (commutes_popInt k _) fun b => .bind (commutes_popInt k _) fun a s => ?_
  split <;> rfl

theorem commutes_printChar : Commutes (lower k) printChar := by
  refine .bind (commutes_popInt k _) fun code s => ?_
  cases charOf? code with
  | some c => rfl
  | none => cases Numeral.written? code <;> simp

/-- A whole stack is printed the same after renumbering. -/
theorem describe?_lower (s : Stack) : (s.lower k).describe? = s.describe? := by
  have hvalue : Value.describe? ∘ Value.lower k = Value.describe? := by
    funext v
    exact v.describe?_lower k
  rw [describe?, lower, ← List.map_reverse, List.mapM_map, hvalue]
  rfl

theorem commutes_printAll : Commutes (lower k) printAll := by
  intro s
  have hsummary : summary? (s.lower k) = s.summary? := by
    unfold summary?
    rw [describe?_lower, lower, List.length_map]
  unfold printAll
  rw [hsummary]
  cases s.summary? <;> rfl

theorem commutes_printTop : Commutes (lower k) printTop := by
  intro s
  cases s with
  | nil => rfl
  | cons v s =>
      show (Outcome.ofText? (v.lower k).describe? (lower k s)).map _ = _
      rw [v.describe?_lower k]
      simp only [printTop, pop_cons, Outcome.bind_ok]
      cases v.describe? <;> rfl

end Stack

/-- Data words do not look at the handles of references. -/
theorem DataWord.commutes_run (k : Nat) (w : DataWord) :
    Outcome.Commutes (Stack.lower k) w.run := by
  cases w with
  | dup =>
      intro s
      match s with
      | [] | _ :: _ => rfl
  | drop =>
      intro s
      match s with
      | [] | _ :: _ => rfl
  | swap =>
      intro s
      match s with
      | [] | [_] | _ :: _ :: _ => rfl
  | copyOver =>
      intro s
      match s with
      | [] | [_] | _ :: _ :: _ => rfl
  | rot =>
      intro s
      match s with
      | [] | [_] | [_, _] | _ :: _ :: _ :: _ => rfl
  | depth =>
      intro s
      simp [run, Stack.pushDepth, Stack.lower, Value.lower]
  | dot => exact Stack.commutes_printTop k
  | dotS => exact Stack.commutes_printAll k
  | add => exact Stack.commutes_binary k _ _
  | sub => exact Stack.commutes_binary k _ _
  | mul => exact Stack.commutes_binary k _ _
  | div => exact Stack.commutes_division k _ _
  | mod => exact Stack.commutes_division k _ _
  | negate => exact .bind (Stack.commutes_popInt k _) fun _ _ => rfl
  | cr => exact fun _ => rfl
  | emit => exact Stack.commutes_printChar k
  | space => exact fun _ => rfl

/-! ### Dictionaries -/

section

variable {ws : List Word} {k : Nat} {w : Word}

/-- Renumbering changes no names, so the last word that answers is at the same place. -/
theorem lastIndex?_lower (name : String) (ws : List Word) :
    lastIndex? name (ws.map (Word.lower k)) = lastIndex? name ws := by
  induction ws with
  | nil => rfl
  | cons w ws ih =>
      simp only [List.map_cons, lastIndex?, ih]
      rfl

/-- A hidden entry is never found. -/
theorem lastIndex?_eraseIdx (name : String) (hw : ws[k]? = some w) (hhidden : w.hidden = true) :
    lastIndex? name (ws.eraseIdx k) = (lastIndex? name ws).map (lower k) := by
  induction ws generalizing k with
  | nil => simp at hw
  | cons v ws ih =>
      cases k with
      | zero =>
          obtain rfl : v = w := by simpa using hw
          have hanswers : v.answersTo name = false := by simp [Word.answersTo, hhidden]
          simp only [List.eraseIdx_cons_zero, lastIndex?, hanswers]
          cases lastIndex? name ws <;> simp [lower]
      | succ k =>
          simp only [List.eraseIdx_cons_succ, lastIndex?, ih (by simpa using hw)]
          cases lastIndex? name ws with
          | none => by_cases hv : v.answersTo name <;> simp [hv, lower]
          | some i =>
              simp only [Option.map_some, lower, Option.some.injEq]
              split <;> split <;> omega

/-- An entry that is hidden is not missed among the visible ones. -/
theorem filter_eraseIdx (hw : ws[k]? = some w) (hhidden : w.hidden = true) :
    (ws.eraseIdx k).filter (!·.hidden) = ws.filter (!·.hidden) := by
  induction ws generalizing k with
  | nil => rfl
  | cons v ws ih =>
      cases k with
      | zero =>
          obtain rfl : v = w := by simpa using hw
          simp [hhidden]
      | succ k => simp [List.filter_cons, ih (by simpa using hw)]

/-- What is below a later entry is the same list, with the one entry taken out of it. -/
theorem take_eraseIdx {a : Nat} (hk : k < a) :
    (ws.eraseIdx k).take (a - 1) = (ws.take a).eraseIdx k := by
  apply List.ext_getElem?
  intro i
  grind

/-- To take an entry out, and to change another one, can be done in either order. -/
theorem eraseIdx_modify {a : Nat} (ha : a ≠ k) (f : Word → Word) :
    (ws.modify a f).eraseIdx k = (ws.eraseIdx k).modify (lower k a) f := by
  apply List.ext_getElem?
  intro i
  simp only [lower, List.getElem?_eraseIdx, List.getElem?_modify]
  grind

/-- Renumbering commutes with a change to one entry, if it does so on that entry. -/
theorem map_modify {f f' g : Word → Word} (h : ∀ w, g (f w) = f' (g w)) (a : Nat) :
    (ws.modify a f).map g = (ws.map g).modify a f' := by
  apply List.ext_getElem?
  intro i
  simp only [List.getElem?_map, List.getElem?_modify]
  grind

end

namespace Dictionary

variable {d d' : Dictionary} {mode : Mode} {k i : Nat} {w : Word}

/-- The dictionary without the entry at `k`. -/
def without (k : Nat) (d : Dictionary) : Dictionary where
  entries := (d.entries.eraseIdx k).map (Word.lower k)
  active := d.active.map (lower k)

@[simp] theorem active_without (k : Nat) (d : Dictionary) :
    (d.without k).active = d.active.map (lower k) := rfl

/-- Every other entry is still there, at its new number. -/
theorem entries_without (hi : i ≠ k) :
    (d.without k).entries[lower k i]? = d.entries[i]?.map (Word.lower k) := by
  simp only [without, List.getElem?_map, List.getElem?_eraseIdx, lower]
  grind

theorem word?_without (hi : i ≠ k) :
    (d.without k).word? (lower k i) = (d.word? i).map (Word.lower k) := by
  simp only [word?, itemAt?_natCast]
  exact entries_without hi

/-- A change to another entry is the same change after the entry at `k` is taken out. -/
theorem modify_without {f f' : Word → Word} (hi : i ≠ k)
    (hf : ∀ w, (f w).lower k = f' (w.lower k)) :
    (d.modify i f).without k = (d.without k).modify (lower k i) f' := by
  simp only [without, modify, eraseIdx_modify hi, map_modify hf]

/-- The entry at `k` is finished and hidden. -/
def Buries (d : Dictionary) (k : Nat) : Prop :=
  ∃ w, d.entries[k]? = some w ∧ w.sealed = true ∧ w.hidden = true

namespace Buries

/-- What is buried stays buried, whatever a session does to the dictionary. -/
theorem mono (h : d.Buries k) (hretain : d.Retains d') : d'.Buries k := by
  obtain ⟨w, hw, hsealed, hhidden⟩ := h
  exact ⟨w, hretain hw hsealed, hsealed, hhidden⟩

theorem lt_size (h : d.Buries k) : k < d.size := by
  obtain ⟨w, hw, -⟩ := h
  exact (List.getElem?_eq_some_iff.1 hw).1

/-- A hidden entry is never offered. -/
theorem ne_of_offers (h : d.Buries k) (hw : d.Offers i w) : i ≠ k := by
  rintro rfl
  obtain ⟨v, hv, -, hhidden⟩ := h
  obtain rfl : v = w := Option.some.inj (hv.symm.trans hw.1)
  exact absurd hw.2.2 (by simp [hhidden])

/-- The open word is not finished, and it comes after all other entries. -/
theorem lt_active (h : d.Buries k) (hd : d.Coherent mode) (hi : d.active = some i) : k < i := by
  obtain ⟨-, hlast, v, hv, hopen, -⟩ := hd.of_active hi
  have hlt := h.lt_size
  have hne : k ≠ i := by
    rintro rfl
    obtain ⟨w, hw, hsealed, -⟩ := h
    obtain rfl : v = w := Option.some.inj (hv.symm.trans hw)
    exact absurd hsealed (by simp [hopen])
  omega

/-- There is one entry less. -/
theorem size_without (h : d.Buries k) : (d.without k).size = d.size - 1 := by
  simp only [size, without, List.length_map]
  exact List.length_eraseIdx_of_lt h.lt_size

/-- The next entry gets the number that it would have been lowered to. -/
theorem lower_size (h : d.Buries k) : lower k d.size = (d.without k).size := by
  rw [h.size_without, lower_of_gt h.lt_size]

/-! ### Finding entries -/

/-- A name is found at the renumbered handle, because the hidden entry answers to none. -/
theorem lookup_without (h : d.Buries k) (name : String) :
    (d.without k).lookup name = (d.lookup name).map (lower k) := by
  obtain ⟨w, hw, -, hhidden⟩ := h
  simp only [lookup, without, lastIndex?_lower]
  exact lastIndex?_eraseIdx name hw hhidden

/-- The same holds below the open word, which is above the buried entry. -/
theorem lookupOutside_without (h : d.Buries k) (hd : d.Coherent mode) (name : String) :
    (d.without k).lookupOutside name = (d.lookupOutside name).map (lower k) := by
  cases hi : d.active with
  | none =>
      have hnone : (d.without k).active = none := by simp [hi]
      rw [lookupOutside_of_active_eq_none hi, lookupOutside_of_active_eq_none hnone,
        h.lookup_without]
  | some i =>
      have hlt := h.lt_active hd hi
      obtain ⟨w, hw, -, hhidden⟩ := h
      have hactive : (d.without k).active = some (i - 1) := by
        simp [hi, lower_of_gt hlt]
      have hw' : (d.entries.take i)[k]? = some w := by rwa [List.getElem?_take_of_lt hlt]
      unfold lookupOutside
      rw [hi, hactive]
      simp only [without]
      rw [← List.map_take, lastIndex?_lower, take_eraseIdx hlt]
      exact lastIndex?_eraseIdx name hw' hhidden

/-- The list of names is the same. -/
theorem names_without (h : d.Buries k) : (d.without k).names = d.names := by
  obtain ⟨w, hw, -, hhidden⟩ := h
  have hfilter : (d.without k).entries.filter (!·.hidden) =
      (d.entries.filter (!·.hidden)).map (Word.lower k) := by
    rw [without, List.filter_map, ← filter_eraseIdx hw hhidden]
    rfl
  unfold names
  rw [List.filter_reverse, hfilter, List.filter_reverse, ← List.map_reverse, List.map_map]
  rfl

/-- The open word is the same one, renumbered. -/
theorem activeWord?_without (h : d.Buries k) (hd : d.Coherent mode) :
    (d.without k).activeWord? = d.activeWord?.map (Word.lower k) := by
  unfold activeWord?
  cases hi : d.active with
  | none => simp [without, hi]
  | some i =>
      have hactive : (d.without k).active = some (lower k i) := by simp [hi]
      rw [hactive]
      exact entries_without (Nat.ne_of_gt (h.lt_active hd hi))

/-! ### Changing entries -/

/-- The open word may be changed before or after the entry at `k` is taken out. -/
theorem modify_active (h : d.Buries k) (hd : d.Coherent mode) (hi : d.active = some i)
    {f f' : Word → Word} (hf : ∀ w, (f w).lower k = f' (w.lower k)) :
    (d.modify i f).without k = (d.without k).modify (lower k i) f' :=
  modify_without (Nat.ne_of_gt (h.lt_active hd hi)) hf

/-- The open word takes a cell. -/
theorem extend_without (h : d.Buries k) (hd : d.Coherent mode) (hi : d.active = some i) (c : Cell) :
    (d.without k).extend (lower k i) (c.lower k) = .ok () ((d.modify i (·.push c)).without k) := by
  have hmodify : (d.modify i (·.push c)).without k =
      (d.without k).modify (lower k i) (·.push (c.lower k)) :=
    h.modify_active hd hi fun w => by simp [Word.lower, Word.push]
  obtain ⟨-, -, w, hw, hopen, -⟩ := hd.of_active hi
  have hw' : (d.without k).entries[lower k i]? = some (w.lower k) := by
    rw [entries_without (Nat.ne_of_gt (h.lt_active hd hi)), hw]
    rfl
  simp only [extend, hw', Word.sealed_lower, hopen, hmodify]
  rfl

/-- A new word is appended on both sides, with a number less by one on one of them. -/
theorem define_without (h : d.Buries k) (name : String) :
    (d.define name).without k = (d.without k).define name := by
  have herase : (d.entries ++ [({ name, handle := d.size } : Word)]).eraseIdx k =
      d.entries.eraseIdx k ++ [{ name, handle := d.size }] :=
    List.eraseIdx_append_of_lt_length h.lt_size _
  unfold define
  rw [← h.lower_size]
  simp only [without, herase, List.map_append, Option.map_some]
  rfl

/-- To end a definition and to take out a buried entry can be done in either order. -/
theorem finish_without (h : d.Buries k) (hd : d.Coherent mode) :
    d.finish.without k = (d.without k).finish := by
  cases hi : d.active with
  | none =>
      have hnone : (d.without k).active = none := by simp [hi]
      rw [finish_of_active_eq_none hi, finish_of_active_eq_none hnone]
  | some i =>
      have hactive : (d.without k).active = some (lower k i) := by simp [hi]
      have hmodify : (d.modify i Word.close).without k = (d.without k).modify (lower k i) .close :=
        h.modify_active hd hi fun _ => rfl
      simp only [finish, hi, hactive, ← hmodify]
      rfl

/-- To abandon a definition and to take out a buried entry can be done in either order. -/
theorem abandon_without (h : d.Buries k) (hd : d.Coherent mode) :
    d.abandon.without k = (d.without k).abandon := by
  cases hi : d.active with
  | none =>
      have hnone : (d.without k).active = none := by simp [hi]
      rw [abandon_of_active_eq_none hi, abandon_of_active_eq_none hnone]
  | some i =>
      have hactive : (d.without k).active = some (lower k i) := by simp [hi]
      have hmodify : (d.modify i Word.bury).without k = (d.without k).modify (lower k i) .bury :=
        h.modify_active hd hi fun _ => rfl
      simp only [abandon, hi, hactive, ← hmodify]
      rfl

end Buries

end Dictionary

end ThreadedForth
