import ThreadedForth.Machine.Descent
/-!
# ThreadedForth.Machine.Run

Running a word to its end: steps are taken until the frames are back to where they were
(`run`). `executeWord` is the one way into the inner interpreter. However the word ends, the
frames above the starting point are popped, and a problem that comes out of it is marked with
the names of the words it came out of.
-/

namespace ThreadedForth

namespace Machine

/-- Take steps until only the outermost `base` frames are left. -/
def run (limit : Limit) (base : Nat) (m : Machine) : Outcome Machine Unit :=
  if base < m.calls.depth then
    match _h : m.step limit with
    | .ok () m' => run limit base m'
    | .fail f m' => .fail f m'
  else .ok () m
termination_by m.profile limit.room
decreasing_by exact descends_step (by omega) _h

/-- Run the word at a handle until it returns. -/
def executeWord (limit : Limit) (handle : Int) (m : Machine) : Outcome Machine Unit :=
  match m.call limit handle with
  | .fail f m' => .fail f m'
  | .ok () m' =>
    match m'.run limit m.calls.depth with
    | .ok () m' => .ok () (m'.unwind m.calls.depth)
    | .fail f m' => .fail (f.traced m'.trace) (m'.unwind m.calls.depth)

/-- With no frames above the base there is nothing to run. -/
theorem run_of_depth_le {limit : Limit} {base : Nat} {m : Machine} (h : m.calls.depth ≤ base) :
    m.run limit base = .ok () m := by
  rw [run, if_neg (by omega)]

/-- A run with frames above the base is a step and then the rest of the run. -/
theorem run_of_lt_depth {limit : Limit} {base : Nat} {m : Machine} (h : base < m.calls.depth) :
    m.run limit base = (m.step limit).bind fun _ m' => m'.run limit base := by
  rw [run, if_pos h]
  split
  next heq => rw [heq]; rfl
  next heq => rw [heq]; rfl

/-! ### Runs never add input -/

/-- A run adds no tokens to the input, by induction on its steps. -/
theorem pending_run (limit : Limit) (base : Nat) (m : Machine) :
    (m.run limit base).state.state.pending ≤ m.state.pending := by
  fun_induction run limit base m with
  | case1 m _ m' hstep ih =>
    have := m.pending_step limit
    rw [hstep] at this
    exact Nat.le_trans ih this
  | case2 m _ f m' hstep =>
    have := m.pending_step limit
    rw [hstep] at this
    exact this
  | case3 m _ => exact Nat.le_refl _

theorem pending_executeWord (limit : Limit) (handle : Int) (m : Machine) :
    (m.executeWord limit handle).state.state.pending ≤ m.state.pending := by
  have hcall := m.state_call limit handle
  unfold executeWord
  split
  next f m' h =>
    rw [h] at hcall
    exact Nat.le_of_eq (congrArg State.pending hcall)
  next m' h =>
    rw [h] at hcall
    have hrun := m'.pending_run limit m.calls.depth
    rw [show m'.state = m.state from hcall] at hrun
    split
    next m'' h' => simpa [h'] using hrun
    next f m'' h' => simpa [h'] using hrun

end Machine

end ThreadedForth
