import ThreadedForth.Problem
/-!
# ThreadedForth.Outcome

Outcomes of operations on a state. An operation that fails does not undo what it did before it
failed, so a failure carries a state just as a success does.

The interpreter handles one sort of fault, a `Problem` of the program it runs. Three other
faults can escape it: an index outside a list, which only a host that forges references can
cause, a call under a limit that holds no number, and a number with too many digits to be
written.

An index that is not negative counts from the front of a list, a negative one from the end
(`position?`). One that points at nothing is of two sorts (`BadIndex`), because an index is a machine
word: a number that no word holds is not taken for an index in the first place.
-/

namespace ThreadedForth

/-! ### Positions in a list -/

/-- What is wrong with an index that points at nothing. -/
inductive BadIndex where
  /-- It is outside the list. -/
  | outOfRange
  /-- It does not fit a signed word of 64 bits. -/
  | tooWide
  deriving DecidableEq, Repr

/-- What is wrong with an index that is known to point at nothing. -/
def BadIndex.of (i : Int) : BadIndex :=
  if -9223372036854775808 ≤ i ∧ i ≤ 9223372036854775807 then outOfRange else tooWide

/-- Where a signed index points in a list of the given length; none outside of it. -/
def position? (length : Nat) (i : Int) : Option Nat :=
  if 0 ≤ i then
    if i < length then some i.toNat else none
  else
    if -(length : Int) ≤ i then some (i + length).toNat else none

/-- Where a slice that starts at a signed index starts: an index outside the list is moved to
its nearer end. -/
def sliceStart (length : Nat) (i : Int) : Nat :=
  if 0 ≤ i then i.toNat else (i + length).toNat

/-- A position that is found lies within the list. -/
theorem position?_lt {length : Nat} {i : Int} {k : Nat} (h : position? length i = some k) :
    k < length := by
  unfold position? at h
  split at h <;> split at h <;> simp at h <;> omega

/-- An index that is not negative is a position by itself. -/
@[simp] theorem position?_natCast (length k : Nat) :
    position? length (k : Int) = if k < length then some k else none := by
  simp [position?]

/-- The item at a signed index. -/
def itemAt? {α : Type} (xs : List α) (i : Int) : Option α :=
  (position? xs.length i).bind (xs[·]?)

@[simp] theorem itemAt?_natCast {α : Type} (xs : List α) (k : Nat) :
    itemAt? xs (k : Int) = xs[k]? := by
  by_cases h : k < xs.length <;> simp [itemAt?, h]

/-! ### Faults -/

/-- Why an operation failed. -/
inductive Fault where
  /-- The program went wrong, inside the words named by `trace`, outermost first. -/
  | problem (p : Problem) (trace : List String)
  /-- An index pointed at nothing. -/
  | badIndex (why : BadIndex)
  /-- A word was called, and the limit on calls held no number to compare with. -/
  | blankLimit
  /-- A number had more decimal digits than may be written. -/
  | digitLimit
  deriving DecidableEq, Repr

namespace Fault

/-- A problem met outside any word. -/
def raise (p : Problem) : Fault := problem p []

/-- An index pointed at nothing. -/
def noItem (i : Int) : Fault := badIndex (.of i)

/-- Record the words a problem came out of; the innermost record is kept. -/
def traced (names : List String) : Fault → Fault
  | problem p [] => problem p names
  | f => f

@[simp] theorem traced_noItem (names : List String) (i : Int) :
    (noItem i).traced names = noItem i := rfl

end Fault

/-! ### Outcomes -/

/-- What an operation on states `σ` ends with: a result or a fault, and a state either way. -/
inductive Outcome (σ α : Type) where
  /-- The operation succeeded. -/
  | ok (result : α) (state : σ)
  /-- The operation failed. -/
  | fail (fault : Fault) (state : σ)
  deriving DecidableEq, Repr

namespace Outcome

variable {σ τ α β : Type}

/-- The state left behind, by success or failure. -/
def state : Outcome σ α → σ
  | ok _ s => s
  | fail _ s => s

/-- The fault of a failure. -/
def fault? : Outcome σ α → Option Fault
  | ok _ _ => none
  | fail f _ => some f

/-- Go on after a success. -/
def bind (x : Outcome σ α) (next : α → σ → Outcome σ β) : Outcome σ β :=
  match x with
  | ok a s => next a s
  | fail f s => fail f s

/-- Change the result of a success. -/
def map (f : α → β) (x : Outcome σ α) : Outcome σ β :=
  match x with
  | ok a s => ok (f a) s
  | fail e s => fail e s

/-- View the state as part of a larger one. -/
def mapState (f : σ → τ) (x : Outcome σ α) : Outcome τ α :=
  match x with
  | ok a s => ok a (f s)
  | fail e s => fail e (f s)

/-- Succeed with an optional result; without one, the number meant to be shown had too many
digits. -/
def ofText? (text : Option α) (s : σ) : Outcome σ α :=
  match text with
  | some a => ok a s
  | none => fail .digitLimit s

@[simp] theorem state_ok (a : α) (s : σ) : (ok a s).state = s := rfl
@[simp] theorem state_fail (f : Fault) (s : σ) : (fail f s : Outcome σ α).state = s := rfl

@[simp] theorem fault?_ok (a : α) (s : σ) : (ok a s).fault? = none := rfl
@[simp] theorem fault?_fail (f : Fault) (s : σ) :
    (fail f s : Outcome σ α).fault? = some f := rfl

@[simp] theorem bind_ok (a : α) (s : σ) (next : α → σ → Outcome σ β) :
    (ok a s).bind next = next a s := rfl
@[simp] theorem bind_fail (f : Fault) (s : σ) (next : α → σ → Outcome σ β) :
    (fail f s : Outcome σ α).bind next = fail f s := rfl

@[simp] theorem map_ok (g : α → β) (a : α) (s : σ) : (ok a s).map g = ok (g a) s := rfl
@[simp] theorem map_fail (g : α → β) (f : Fault) (s : σ) :
    (fail f s : Outcome σ α).map g = fail f s := rfl

@[simp] theorem mapState_ok (g : σ → τ) (a : α) (s : σ) :
    (ok a s).mapState g = ok a (g s) := rfl
@[simp] theorem mapState_fail (g : σ → τ) (f : Fault) (s : σ) :
    (fail f s : Outcome σ α).mapState g = fail f (g s) := rfl

@[simp] theorem ofText?_some (a : α) (s : σ) : ofText? (some a) s = ok a s := rfl
@[simp] theorem ofText?_none (s : σ) : (ofText? none s : Outcome σ α) = fail .digitLimit s := rfl

@[simp] theorem state_map (g : α → β) (x : Outcome σ α) : (x.map g).state = x.state := by
  cases x <;> rfl

@[simp] theorem state_mapState (g : σ → τ) (x : Outcome σ α) :
    (x.mapState g).state = g x.state := by
  cases x <;> rfl

end Outcome

end ThreadedForth
