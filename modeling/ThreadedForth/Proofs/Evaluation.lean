import ThreadedForth.Machine.Run
import ThreadedForth.Proofs.Primitive
/-!
# ThreadedForth.Proofs.Evaluation

What a word means, by recursion on the nesting of calls in place of a stack of frames.

`evalCall limit free handle` runs the word at a handle where `free` more calls may be nested. It
knows nothing about the words around: the trace of a fault starts at the word itself, and
whoever calls it puts the outer names in front (`Fault.within`). That makes it the form to
reason with. A property of every run is an induction on `free` and, inside, on the code of a
word, and neither the position of a frame nor the depth of the stack appears in it.

`Machine.settle_run` ties the machine to it: running the frames above `base` is evaluating what
is left of the innermost one, and then running the frames below. A `call` in the machine only
pushes a frame and returns, so the statement has to speak of the run that goes on afterwards
(`Machine.resume`); the induction is on the room above the frame and then on its cells.
-/

namespace ThreadedForth

/-- Why a limit refuses to call a word of a name. -/
def Limit.refusal (name : String) : Limit → Fault
  | atMost _ => .raise (.tooDeep name)
  | blank => .blankLimit

/-- A limit refuses exactly the calls it has no room for, all for the same reason. -/
theorem Limit.refusal?_eq (limit : Limit) (name : String) (depth : Nat) :
    limit.refusal? name depth = if depth < limit.room then none else some (limit.refusal name) := by
  by_cases hroom : depth < limit.room
  · rw [if_pos hroom, refusal?_eq_none_iff.2 hroom]
  · rw [if_neg hroom]
    cases h : limit.refusal? name depth with
    | none => exact absurd (refusal?_eq_none_iff.1 h) hroom
    | some f => cases limit <;> simp_all [refusal?, refusal]

/-- A call that is refused has no trace yet. -/
theorem Limit.untraced_refusal (name : String) (limit : Limit) :
    (limit.refusal name).Untraced := by
  cases limit <;> first | rfl | trivial

/-! ### The evaluator -/

/-- Run a cell; words are called by `call`. -/
def evalCell (call : Int → State → Outcome State Unit) : Cell → State → Outcome State Unit
  | .literal v, s => .ok () (s.push v)
  | .word r, s => call r.handle s
  | .primitive p, s => (p.run s).bind fun wanted s =>
      match wanted with
      | none => .ok () s
      | some r => call r.handle s

/-- Run cells, one after another. -/
def evalCode (call : Int → State → Outcome State Unit) : List Cell → State → Outcome State Unit
  | [], s => .ok () s
  | c :: code, s => (evalCell call c s).bind fun _ s => evalCode call code s

/-- Run the word at a handle, with room for `free` nested calls, its own included. -/
def evalCall (limit : Limit) : Nat → Int → State → Outcome State Unit
  | 0, handle, s =>
    match s.dict.word? handle with
    | none => .fail (.noItem handle) s
    | some w => .fail (limit.refusal w.name) s
  | free + 1, handle, s =>
    match s.dict.word? handle with
    | none => .fail (.noItem handle) s
    | some w => (evalCode (evalCall limit free) w.code s).mapFault (.within [w.name])

section

variable (limit : Limit) {free : Nat} {handle : Int} {s : State} {w : Word}

theorem evalCall_of_word?_eq_none (h : s.dict.word? handle = none) :
    evalCall limit free handle s = .fail (.noItem handle) s := by
  cases free <;> simp [evalCall, h]

/-- Without room a word is refused, whatever its code is. -/
theorem evalCall_zero (h : s.dict.word? handle = some w) :
    evalCall limit 0 handle s = .fail (limit.refusal w.name) s := by
  simp [evalCall, h]

/-- A fault comes out of a word with the name of the word in front. -/
theorem evalCall_succ (h : s.dict.word? handle = some w) :
    evalCall limit (free + 1) handle s =
      (evalCode (evalCall limit free) w.code s).mapFault (.within [w.name]) := by
  simp [evalCall, h]

end

/-! ### Frames -/

namespace CallStack

@[simp] theorem names_empty : empty.names = [] := rfl

@[simp] theorem unwind_empty (base : Nat) : empty.unwind base = empty :=
  unwind_of_depth_le (Nat.zero_le base)

@[simp] theorem names_push (f : Frame) (s : CallStack) :
    (s.push f).names = s.names ++ [f.name] := by
  simp [names]

/-- Unwinding does not see a frame that was pushed above the base. -/
theorem unwind_push {base : Nat} {s : CallStack} (h : base ≤ s.depth) (f : Frame) :
    (s.push f).unwind base = s.unwind base := by
  apply ext
  simp [show s.depth + 1 - base = s.depth - base + 1 by omega]

end CallStack

/-! ### The machine agrees -/

namespace Machine

/-- End a run: pop what is above the base, and record the running words in a fault. -/
def settle (base : Nat) : Outcome Machine Unit → Outcome Machine Unit
  | .ok () m => .ok () (m.unwind base)
  | .fail f m => .fail (f.traced m.trace) (m.unwind base)

/-- Go on with a run after a part of it that ended with `x`: with the frames `calls` after a
success; a fault ends the run, and comes out of the words `names`. -/
def resume (limit : Limit) (base : Nat) (names : List String) (calls : CallStack) :
    Outcome State Unit → Outcome Machine Unit
  | .ok () s => settle base (run limit base ⟨s, calls⟩)
  | .fail f s => .fail (f.within names) ⟨s, calls.unwind base⟩

/-- Executing a word is a call, a run down to where it started, and an end to that run. -/
theorem executeWord_eq_settle (limit : Limit) (handle : Int) (m : Machine) :
    m.executeWord limit handle =
      match m.call limit handle with
      | .fail f m' => .fail f m'
      | .ok () m' => settle m.calls.depth (m'.run limit m.calls.depth) := by
  unfold executeWord
  cases m.call limit handle with
  | fail f m' => rfl
  | ok a m' =>
      simp only
      cases m'.run limit m.calls.depth <;> rfl

variable {limit : Limit} {base : Nat}

/-- A call, and the run that follows it, given what a run makes of frames with less room. -/
theorem settle_call {free : Nat} {calls : CallStack} (hfree : limit.room - calls.depth = free)
    (ih : ∀ {n : Nat}, free = n + 1 → ∀ (f : Frame) (s : State),
      settle base (run limit base ⟨s, calls.push f⟩) =
        resume limit base (calls.push f).names calls (evalCode (evalCall limit n) f.rest s))
    (handle : Int) (s : State) :
    settle base ((call limit handle ⟨s, calls⟩).bind fun _ m => m.run limit base) =
      resume limit base calls.names calls (evalCall limit free handle s) := by
  unfold call
  simp only
  cases hw : s.dict.word? handle with
  | none => simp [evalCall_of_word?_eq_none limit hw, settle, resume, unwind]
  | some w =>
      simp only [enter, Limit.refusal?_eq]
      cases free with
      | zero =>
          rw [if_neg (by omega)]
          simp only [Outcome.bind_fail, evalCall_zero limit hw, settle, resume]
          rw [Fault.traced_eq_within (limit.untraced_refusal w.name)]
          rfl
      | succ n =>
          rw [if_pos (by omega)]
          simp only [Outcome.bind_ok]
          rw [ih rfl, evalCall_succ limit hw]
          cases h : evalCode (evalCall limit n) w.code s with
          | ok a t => simp [h, resume]
          | fail f t =>
              simp only [Frame.rest_start, h, resume, Outcome.mapFault_fail, Fault.within_within,
                CallStack.names_push]
              rfl

/-- The run of a frame is the evaluation of its cells, followed by the run of the frames
below. -/
theorem settle_run (free : Nat) : ∀ {calls : CallStack}, base ≤ calls.depth →
    limit.room - (calls.depth + 1) = free → ∀ (f : Frame) (s : State),
      settle base (run limit base ⟨s, calls.push f⟩) =
        resume limit base (calls.push f).names calls (evalCode (evalCall limit free) f.rest s) := by
  induction free using Nat.strongRecOn with
  | ind free ihFree =>
  intro calls hbase hfree ⟨h, name, code⟩
  induction code with
  | nil =>
      intro s
      rw [run_of_lt_depth (by simp; omega)]
      simp [step, evalCode, resume]
  | cons c rest ihCode =>
      intro s
      have hcall : ∀ (handle : Int) (s : State),
          settle base ((call limit handle ⟨s, calls.push ⟨h, name, rest⟩⟩).bind
              fun _ m => m.run limit base) =
            resume limit base (calls.push ⟨h, name, rest⟩).names (calls.push ⟨h, name, rest⟩)
              (evalCall limit free handle s) :=
        settle_call (by simpa using hfree)
          (fun {n} hn => ihFree n (by omega) (by simp; omega) (by simp; omega))
      rw [run_of_lt_depth (by simp; omega)]
      simp only [step, CallStack.frames_push, CallStack.pop_push, evalCode]
      -- Whatever the cell did, the machine goes on with the rest of the same frame.
      have hnext : ∀ x : Outcome State Unit,
          resume limit base (calls.names ++ [name]) (calls.push ⟨h, name, rest⟩) x =
            resume limit base (calls.names ++ [name]) calls
              (x.bind fun _ s => evalCode (evalCall limit free) rest s) := by
        intro x
        cases x with
        | ok a t => simpa [resume] using ihCode t
        | fail e t => simp [resume, CallStack.unwind_push hbase]
      cases c with
      | literal v => simpa [runCell, evalCell, resume, withState] using hnext (.ok () (s.push v))
      | word r => simpa [runCell, evalCell, hnext] using hcall r.handle s
      | primitive p =>
          have hplain := p.plain_run s
          simp only [runCell, runPrimitive, evalCell]
          cases hp : p.run s with
          | fail e t =>
              rw [hp] at hplain
              have he : e.Untraced := (hplain.2 e rfl).untraced
              simp [settle, resume, Fault.traced_eq_within he, trace, unwind, withState,
                CallStack.unwind_push hbase]
          | ok wanted t =>
              cases wanted with
              | none => simpa [resume, withState] using hnext (.ok () t)
              | some r => simpa [hnext, withState] using hcall r.handle t

/-- With no word running, executing a word is evaluating it with all the room of the limit. -/
theorem executeWord_of_idle {m : Machine} (hm : m.calls = .empty) (handle : Int) :
    m.executeWord limit handle =
      (evalCall limit limit.room handle m.state).mapState m.withState := by
  obtain ⟨s, calls⟩ := m
  obtain rfl : calls = .empty := hm
  rw [executeWord_eq_settle]
  unfold call
  simp only
  cases hw : s.dict.word? handle with
  | none => simp [evalCall_of_word?_eq_none limit hw, withState]
  | some w =>
      simp only [enter, Limit.refusal?_eq]
      cases hroom : limit.room with
      | zero => simp [evalCall_zero limit hw, withState]
      | succ free =>
          have hrun : settle 0 (run limit 0 ⟨s, CallStack.empty.push (.start w)⟩) =
              resume limit 0 (CallStack.empty.push (.start w)).names .empty
                (evalCode (evalCall limit free) w.code s) :=
            settle_run free (by simp) (by simp [hroom]) (.start w) s
          rw [if_pos (by simp)]
          simp only [CallStack.depth_empty]
          rw [hrun, evalCall_succ limit hw]
          cases h : evalCode (evalCall limit free) w.code s with
          | ok a t =>
              have hdone : run limit 0 ⟨t, .empty⟩ = .ok () ⟨t, .empty⟩ := run_of_depth_le (by simp)
              simp [resume, hdone, settle, unwind, withState]
          | fail f t => simp [resume, withState, Frame.start]

/-- With no word running and room for one, executing a word is evaluating its code with the room
that is left. -/
theorem executeWord_of_room {m : Machine} (hm : m.calls = .empty) {handle : Int} {s : State}
    {w : Word} (hw : s.dict.word? handle = some w) {free : Nat} (hfree : limit.room = free + 1) :
    (m.withState s).executeWord limit handle =
      ((evalCode (evalCall limit free) w.code s).mapFault (.within [w.name])).mapState
        m.withState := by
  have hidle : (m.withState s).calls = .empty := hm
  rw [executeWord_of_idle hidle, hfree, state_withState, evalCall_succ limit hw]
  rfl

end Machine

end ThreadedForth
