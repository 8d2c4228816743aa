import Mathlib.Data.List.Induction
import Mathlib.Order.Bounds.Basic
import ThreadedForth.Dictionary
/-!
# ThreadedForth.Proofs.Resolution

What a name means: the newest definition of it wins.

An entry stands for its name as long as it is not hidden, and a name may have any number of such
entries (`Dictionary.standing`). A look-up gives the greatest of their handles. While a word is open
the look-ups for it consider older entries only, even if a host has appended others after it.

The list of names is made in another way, by a walk from the newest entry to the oldest that leaves
out what it has met already. Still the two agree: a name is listed, once, if a look-up finds it, and
the order of the names is that of the handles they are found at.

Nothing is assumed about the dictionary.
-/

namespace ThreadedForth

variable {name : String} {ws : List Word} {w : Word} {i k : Nat}

/-! ### The last word that answers -/

/-- Nothing is found exactly if no word answers. -/
theorem lastIndex?_eq_none_iff :
    lastIndex? name ws = none ↔ ∀ w ∈ ws, w.answersTo name = false := by
  induction ws with
  | nil => simp [lastIndex?]
  | cons v ws ih =>
      rw [List.forall_mem_cons, ← ih, lastIndex?]
      cases lastIndex? name ws with
      | none => simp
      | some j => simp

/-- No later word answers. -/
theorem le_of_lastIndex? (h : lastIndex? name ws = some i) (hw : ws[k]? = some w)
    (ha : w.answersTo name = true) : k ≤ i := by
  induction ws generalizing i k with
  | nil => simp at hw
  | cons v ws ih =>
      cases k with
      | zero => exact Nat.zero_le i
      | succ k =>
          have hw : ws[k]? = some w := by simpa using hw
          cases hlast : lastIndex? name ws with
          | none =>
              have hnone := lastIndex?_eq_none_iff.1 hlast w (List.mem_of_getElem? hw)
              exact absurd ha (by simp [hnone])
          | some j =>
              obtain rfl : j + 1 = i := by simpa [lastIndex?, hlast] using h
              exact Nat.succ_le_succ (ih hlast hw)

/-- The search from the end finds the greatest of all indexes whose word answers. -/
theorem lastIndex?_eq_some_iff :
    lastIndex? name ws = some i ↔
      IsGreatest {k | ∃ w, ws[k]? = some w ∧ w.answersTo name = true} i := by
  constructor
  · intro h
    exact ⟨lastIndex?_eq_some h, fun k ⟨w, hw, ha⟩ => le_of_lastIndex? h hw ha⟩
  · intro h
    obtain ⟨w, hw, ha⟩ := h.1
    cases hlast : lastIndex? name ws with
    | none =>
        have hnone := lastIndex?_eq_none_iff.1 hlast w (List.mem_of_getElem? hw)
        exact absurd ha (by simp [hnone])
    | some j =>
        -- Both are greatest, and there is only one such index.
        have hj : j ≤ i := h.2 (lastIndex?_eq_some hlast)
        exact congrArg some (hj.antisymm (le_of_lastIndex? hlast hw ha))

/-! ### First occurrences -/

/-- Taking first occurrences loses no item. -/
theorem mem_firstOccurrences {x : String} {xs : List String} :
    x ∈ firstOccurrences xs ↔ x ∈ xs := by
  induction xs with
  | nil => rfl
  | cons y xs ih =>
      by_cases hx : x = y
      · simp [firstOccurrences, hx]
      · simp [firstOccurrences, hx, ih]

/-- Each item has one first occurrence. -/
theorem nodup_firstOccurrences (xs : List String) : (firstOccurrences xs).Nodup := by
  induction xs with
  | nil => exact List.nodup_nil
  | cons y xs ih =>
      rw [firstOccurrences, List.nodup_cons]
      exact ⟨by simp, ih.filter _⟩

namespace Dictionary

/-! ### Look-ups -/

/-- The handles of the entries that a name has: those of the name which are not hidden. -/
def standing (d : Dictionary) (name : String) : Set Nat :=
  {h | ∃ w, d.entries[h]? = some w ∧ w.name = name ∧ w.hidden = false}

theorem mem_standing_iff {d : Dictionary} :
    k ∈ d.standing name ↔ ∃ w, d.entries[k]? = some w ∧ w.answersTo name = true := by
  simp [standing, Word.answersTo]

/-- A look-up finds the newest of the entries that stand for the name. -/
theorem lookup_eq_some_iff {d : Dictionary} :
    d.lookup name = some k ↔ IsGreatest (d.standing name) k := by
  have hset : d.standing name = {k | ∃ w, d.entries[k]? = some w ∧ w.answersTo name = true} :=
    Set.ext fun _ => mem_standing_iff
  rw [lookup, lastIndex?_eq_some_iff, hset]

theorem lookup_eq_none_iff {d : Dictionary} : d.lookup name = none ↔ d.standing name = ∅ := by
  rw [lookup, lastIndex?_eq_none_iff, Set.eq_empty_iff_forall_notMem]
  simp only [mem_standing_iff, List.mem_iff_getElem?]
  grind

/-- The entries below a handle, as a dictionary. -/
theorem standing_take {d : Dictionary} {a : Nat} :
    (⟨d.entries.take a, none⟩ : Dictionary).standing name = {h ∈ d.standing name | h < a} := by
  ext h
  simp only [mem_standing_iff, List.getElem?_take]
  grind

/-- A look-up outside the open word is one in the dictionary up to it. -/
theorem lookupOutside_eq_lookup {d : Dictionary} {a : Nat} (ha : d.active = some a) :
    d.lookupOutside name = (⟨d.entries.take a, none⟩ : Dictionary).lookup name := by
  simp [lookupOutside, ha, lookup]

/-! ### Names -/

/-- A new entry puts its name first and takes it away from its former place, unless the entry is
hidden. -/
theorem names_concat (w : Word) (ws : List Word) (a : Option Nat) :
    (⟨ws ++ [w], a⟩ : Dictionary).names =
      if w.hidden then (⟨ws, a⟩ : Dictionary).names
      else w.name :: (⟨ws, a⟩ : Dictionary).names.filter (· ≠ w.name) := by
  cases hhidden : w.hidden <;> simp [names, hhidden, firstOccurrences]

theorem mem_names_iff {d : Dictionary} : name ∈ d.names ↔ (d.lookup name).isSome = true := by
  rw [names, mem_firstOccurrences, Option.isSome_iff_ne_none, Ne, lookup, lastIndex?_eq_none_iff]
  simp only [List.mem_map, List.mem_filter, List.mem_reverse, Word.answersTo]
  grind

/-- The names are listed in the order of the handles they are found at, the greatest first. By
induction on the entries, of which the newest one comes last. -/
theorem pairwise_names (a : Option Nat) (ws : List Word) :
    (⟨ws, a⟩ : Dictionary).names.Pairwise fun x y =>
      ∃ i j, lastIndex? x ws = some i ∧ lastIndex? y ws = some j ∧ j < i := by
  induction ws using List.reverseRecOn with
  | nil => exact .nil
  | append_singleton ws w ih =>
      -- What the new entry does not answer to is found where it was before.
      have hkept : ∀ {x i}, w.answersTo x = false → lastIndex? x ws = some i →
          lastIndex? x (ws ++ [w]) = some i := by
        intro x i hx hi
        rw [lastIndex?_concat, hx, hi]
        rfl
      rw [names_concat]
      by_cases hhidden : w.hidden = true
      · rw [if_pos hhidden]
        have hx : ∀ x, w.answersTo x = false := by simp [Word.answersTo, hhidden]
        refine ih.imp ?_
        rintro x y ⟨i, j, hi, hj, hlt⟩
        exact ⟨i, j, hkept (hx _) hi, hkept (hx _) hj, hlt⟩
      · rw [if_neg hhidden, List.pairwise_cons]
        have hx : ∀ {x}, x ∈ (⟨ws, a⟩ : Dictionary).names.filter (· ≠ w.name) →
            x ∈ (⟨ws, a⟩ : Dictionary).names ∧ w.answersTo x = false := by
          intro x hx
          obtain ⟨hmem, hne⟩ := List.mem_filter.1 hx
          exact ⟨hmem, by simp [Word.answersTo, Ne.symm (of_decide_eq_true hne)]⟩
        refine ⟨fun y hy => ?_, ?_⟩
        · obtain ⟨j, hj⟩ := Option.isSome_iff_exists.1 (mem_names_iff.1 (hx hy).1)
          have hlast : lastIndex? w.name (ws ++ [w]) = some ws.length := by
            rw [lastIndex?_concat, if_pos (by simp [Word.answersTo, hhidden])]
          obtain ⟨v, hv, -⟩ := lastIndex?_eq_some hj
          exact ⟨ws.length, j, hlast, hkept (hx hy).2 hj, (List.getElem?_eq_some_iff.1 hv).1⟩
        · refine (ih.filter _).imp_of_mem ?_
          rintro x y hx₁ hx₂ ⟨i, j, hi, hj, hlt⟩
          exact ⟨i, j, hkept (hx hx₁).2 hi, hkept (hx hx₂).2 hj, hlt⟩

/-- The newest definition wins. A look-up gives the greatest handle whose entry has the name and is
not hidden, if there is one; outside a definition that is open, the greatest such handle below it.
The names are listed without repetition, those that a look-up finds and no others, in descending
order of their handles. -/
theorem newest_wins (d : Dictionary) :
    (∀ name k, d.lookup name = some k ↔ IsGreatest (d.standing name) k) ∧
    (∀ name, d.lookup name = none ↔ d.standing name = ∅) ∧
    (d.active = none → ∀ name, d.lookupOutside name = d.lookup name) ∧
    (∀ a, d.active = some a → ∀ name,
      (∀ k, d.lookupOutside name = some k ↔ IsGreatest {h ∈ d.standing name | h < a} k) ∧
      (d.lookupOutside name = none ↔ {h ∈ d.standing name | h < a} = ∅)) ∧
    d.names.Nodup ∧
    (∀ name, name ∈ d.names ↔ (d.lookup name).isSome = true) ∧
    d.names.Pairwise fun x y => ∃ i j, d.lookup x = some i ∧ d.lookup y = some j ∧ j < i := by
  refine ⟨fun name k => lookup_eq_some_iff, fun name => lookup_eq_none_iff,
    fun ha name => lookupOutside_of_active_eq_none ha name, fun a ha name => ⟨fun k => ?_, ?_⟩,
    nodup_firstOccurrences _, fun name => mem_names_iff, pairwise_names d.active d.entries⟩
  · rw [lookupOutside_eq_lookup ha, lookup_eq_some_iff, standing_take]
  · rw [lookupOutside_eq_lookup ha, lookup_eq_none_iff, standing_take]

/-- The newest `x` is hidden; the oldest entry is open, so nothing is found below it. -/
example :
    let d : Dictionary := ⟨[{ name := "y", handle := 0 }, { name := "x", handle := 1 },
      { name := "z", handle := 2 }, { name := "x", handle := 3, hidden := true }], some 0⟩
    d.lookup "x" = some 1 ∧ d.lookupOutside "x" = none ∧ d.names = ["z", "x", "y"] := by
  decide

end Dictionary

end ThreadedForth
