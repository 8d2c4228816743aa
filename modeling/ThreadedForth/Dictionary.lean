import ThreadedForth.Outcome
import ThreadedForth.Word
/-!
# ThreadedForth.Dictionary

The dictionary: an append-only list of words, and the index of the word under construction, if
there is one (the *active* word). Defining a name again appends a new entry, and a look-up
finds the newest visible one, so a new definition shadows an older one without touching it.
-/

namespace ThreadedForth

/-- A dictionary. -/
structure Dictionary where
  /-- The entries, oldest first; the handle of an entry is its index. -/
  entries : List Word := []
  /-- The handle of the word under construction. -/
  active : Option Nat := none
  deriving DecidableEq, Repr

/-- The index of the last word that answers to a name. -/
def lastIndex? (name : String) : List Word → Option Nat
  | [] => none
  | w :: ws =>
    match lastIndex? name ws with
    | some i => some (i + 1)
    | none => if w.answersTo name then some 0 else none

/-- The first occurrence of every item, in order. -/
def firstOccurrences : List String → List String
  | [] => []
  | x :: xs => x :: (firstOccurrences xs).filter (· ≠ x)

namespace Dictionary

/-- The number of entries. -/
def size (d : Dictionary) : Nat := d.entries.length

/-- The entry at a signed handle; a negative one counts from the newest entry. -/
def word? (d : Dictionary) (handle : Int) : Option Word := itemAt? d.entries handle

/-- Change the entry at an index. -/
def modify (d : Dictionary) (k : Nat) (f : Word → Word) : Dictionary :=
  { d with entries := d.entries.modify k f }

/-- The entry under construction. -/
def activeWord? (d : Dictionary) : Option Word := d.active.bind (d.entries[·]?)

/-! ### Adding entries -/

/-- Append a finished word that consists of one primitive. -/
def addPrimitive (d : Dictionary) (p : Primitive) (immediate : Bool) : Dictionary :=
  { d with
    entries := d.entries ++
      [{ name := p.name, handle := d.size, immediate, sealed := true, code := [.primitive p] }] }

/-- Append an empty word and make it the active one. -/
def define (d : Dictionary) (name : String) : Dictionary where
  entries := d.entries ++ [{ name, handle := d.size }]
  active := some d.size

/-- The dictionary of a fresh interpreter. -/
def initial : Dictionary :=
  Primitive.builtins.foldl (fun d p => d.addPrimitive p p.isImmediate) {}

/-! ### Finding entries -/

/-- The newest visible entry of a name. -/
def lookup (d : Dictionary) (name : String) : Option Nat := lastIndex? name d.entries

/-- The newest visible entry of a name below the active word, so that a word under construction
never means itself. -/
def lookupOutside (d : Dictionary) (name : String) : Option Nat :=
  match d.active with
  | none => d.lookup name
  | some k => lastIndex? name (d.entries.take k)

/-- The visible names, newest first, each once. -/
def names (d : Dictionary) : List String :=
  firstOccurrences ((d.entries.reverse.filter (!·.hidden)).map Word.name)

/-! ### Building the active word -/

/-- Add a cell to the entry at an index; a sealed entry refuses it. -/
def extend (d : Dictionary) (k : Nat) (c : Cell) : Outcome Dictionary Unit :=
  match d.entries[k]? with
  | none => .fail (.noItem k) d
  | some w =>
    if w.sealed then .fail (.raise (.alreadyFinished w.name)) d
    else .ok () (d.modify k (·.push c))

/-- Seal the active word, which then is no longer active. -/
def finish (d : Dictionary) : Dictionary :=
  match d.active with
  | none => d
  | some k => { d.modify k Word.close with active := none }

/-- Seal the active word and put it out of sight for good. -/
def abandon (d : Dictionary) : Dictionary :=
  match d.active with
  | none => d
  | some k => { d.modify k Word.bury with active := none }

/-! ### Equations -/

@[simp] theorem entries_modify (d : Dictionary) (k : Nat) (f : Word → Word) :
    (d.modify k f).entries = d.entries.modify k f := rfl

@[simp] theorem active_finish (d : Dictionary) : d.finish.active = none := by
  unfold finish
  split <;> simp_all

@[simp] theorem active_abandon (d : Dictionary) : d.abandon.active = none := by
  unfold abandon
  split <;> simp_all

@[simp] theorem size_finish (d : Dictionary) : d.finish.size = d.size := by
  unfold finish
  split <;> simp [size]

theorem finish_of_active_eq_none {d : Dictionary} (h : d.active = none) : d.finish = d := by
  simp [finish, h]

theorem abandon_of_active_eq_none {d : Dictionary} (h : d.active = none) : d.abandon = d := by
  simp [abandon, h]

/-- With no word open, both look-ups find the same. -/
theorem lookupOutside_of_active_eq_none {d : Dictionary} (h : d.active = none) (name : String) :
    d.lookupOutside name = d.lookup name := by
  simp [lookupOutside, h]

/-- What a handle points at is an entry. -/
theorem mem_of_word? {d : Dictionary} {handle : Int} {w : Word} (h : d.word? handle = some w) :
    w ∈ d.entries := by
  obtain ⟨k, -, hk⟩ := Option.bind_eq_some_iff.1 h
  exact List.mem_of_getElem? hk

end Dictionary

/-- A last word that answers comes before all others. -/
theorem lastIndex?_concat (name : String) (ws : List Word) (w : Word) :
    lastIndex? name (ws ++ [w]) =
      if w.answersTo name then some ws.length else lastIndex? name ws := by
  induction ws with
  | nil => rfl
  | cons v ws ih =>
    simp only [List.cons_append, lastIndex?, ih]
    by_cases ha : w.answersTo name = true <;> simp [ha]

/-- What a look-up finds is in range and answers to the name. -/
theorem lastIndex?_eq_some {name : String} {ws : List Word} {i : Nat}
    (h : lastIndex? name ws = some i) : ∃ w, ws[i]? = some w ∧ w.answersTo name = true := by
  induction ws generalizing i with
  | nil => simp [lastIndex?] at h
  | cons w ws ih =>
    unfold lastIndex? at h
    split at h
    next j hj =>
      obtain ⟨v, hv, ha⟩ := ih hj
      obtain rfl : j + 1 = i := by simpa using h
      exact ⟨v, by simpa using hv, ha⟩
    next =>
      split at h
      next ha =>
        obtain rfl : 0 = i := by simpa using h
        exact ⟨w, rfl, ha⟩
      next => simp at h

end ThreadedForth
