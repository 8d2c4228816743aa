import ThreadedForth.Outcome
import ThreadedForth.Word
/-!
# ThreadedForth.CallStack

The words being run, as a stack of frames, and the limit on how deep it may get.

Every step of a run asks how deep the stack is, so it holds its depth beside its frames. That the two
agree is part of the type (`depth_eq`), hence a call stack is determined by its frames
(`CallStack.ext`).

A limit is compared with the depth whenever a word is called (`Limit.refusal?`), and nowhere else:
under a bad limit everything that calls no word still works. It may be any integer, and one below 1
allows no call. It may also be blank, because a user can ask for a limit without giving a number. A
blank limit allows no call either, but a refusal under it is not a problem of the program that ran.
-/

namespace ThreadedForth

/-! ### The limit -/

/-- How deep calls may nest. -/
inductive Limit where
  /-- At most `n` words run at a time. -/
  | atMost (n : Int)
  /-- A limit that holds no number. -/
  | blank
  deriving DecidableEq, Repr

namespace Limit

/-- Why the word of a name may not be called while `depth` words are running, if it may not. -/
def refusal? (name : String) (depth : Nat) : Limit → Option Fault
  | atMost n => if n ≤ depth then some (.raise (.tooDeep name)) else none
  | blank => some .blankLimit

/-- How many words can run at a time. -/
def room : Limit → Nat
  | atMost n => n.toNat
  | blank => 0

/-- A word may be called as long as there is room. -/
theorem refusal?_eq_none_iff {limit : Limit} {name : String} {depth : Nat} :
    limit.refusal? name depth = none ↔ depth < limit.room := by
  cases limit with
  | atMost n =>
    simp only [refusal?, room, ite_eq_right_iff, reduceCtorEq, imp_false]
    omega
  | blank => simp [refusal?, room]

end Limit

/-! ### Frames -/

/-- A word being run. Code never changes while it runs, so a frame holds the cells still to
be run rather than a place in the dictionary. -/
structure Frame where
  /-- The handle of the word. -/
  handle : Nat
  /-- The name of the word. -/
  name : String
  /-- The cells still to be run. -/
  rest : List Cell
  deriving DecidableEq, Repr

/-- The frame of a word that is about to start. -/
def Frame.start (w : Word) : Frame := ⟨w.handle, w.name, w.code⟩

@[simp] theorem Frame.rest_start (w : Word) : (start w).rest = w.code := rfl

/-- The frames of the words being run, **innermost first**, with their number. -/
structure CallStack where
  /-- The frames, innermost first. -/
  frames : List Frame
  /-- How many frames there are. -/
  depth : Nat
  /-- The number is right. -/
  depth_eq : depth = frames.length
  deriving DecidableEq, Repr

namespace CallStack

/-- The call stack while no word is running. -/
def empty : CallStack := ⟨[], 0, rfl⟩

/-- Push a frame. -/
def push (f : Frame) (s : CallStack) : CallStack where
  frames := f :: s.frames
  depth := s.depth + 1
  depth_eq := by simp [s.depth_eq]

/-- Pop the innermost frame, if there is one. -/
def pop (s : CallStack) : CallStack where
  frames := s.frames.tail
  depth := s.depth - 1
  depth_eq := by simp [s.depth_eq]

/-- Pop frames until only the outermost `base` are left. -/
def unwind (base : Nat) (s : CallStack) : CallStack where
  frames := s.frames.drop (s.depth - base)
  depth := s.depth - (s.depth - base)
  depth_eq := by simp [s.depth_eq]

/-- The names of the words being run, outermost first. -/
def names (s : CallStack) : List String := (s.frames.map Frame.name).reverse

/-! ### Equations of the call stack -/

@[ext] theorem ext {s t : CallStack} (h : s.frames = t.frames) : s = t := by
  obtain ⟨sf, sd, hs⟩ := s
  obtain ⟨tf, td, ht⟩ := t
  obtain rfl : sf = tf := h
  obtain rfl : sd = td := hs.trans ht.symm
  rfl

@[simp] theorem frames_push (f : Frame) (s : CallStack) : (s.push f).frames = f :: s.frames := rfl
@[simp] theorem frames_pop (s : CallStack) : s.pop.frames = s.frames.tail := rfl
@[simp] theorem frames_unwind (base : Nat) (s : CallStack) :
    (s.unwind base).frames = s.frames.drop (s.depth - base) := rfl

@[simp] theorem depth_empty : empty.depth = 0 := rfl
@[simp] theorem depth_push (f : Frame) (s : CallStack) : (s.push f).depth = s.depth + 1 := rfl
@[simp] theorem depth_pop (s : CallStack) : s.pop.depth = s.depth - 1 := rfl

@[simp] theorem pop_push (f : Frame) (s : CallStack) : (s.push f).pop = s := ext rfl

/-- Nothing is popped from a stack that is no deeper than the base. -/
theorem unwind_of_depth_le {base : Nat} {s : CallStack} (h : s.depth ≤ base) :
    s.unwind base = s :=
  ext (by simp [Nat.sub_eq_zero_of_le h])

end CallStack

end ThreadedForth
