import Mathlib
import ThreadedForth.Proofs.Unwinding
/-!
# ThreadedForth.Proofs.Entry

Two of the things a host can ask for can be written in source text as well, and it makes no
difference which way they are asked for.

* A host runs the word a reference on the stack leads to, and source text has `execute` for that.
  The first runs the word to its end before it returns. The second only pushes a frame, and the loop
  that is running `execute` goes on with it, one frame deeper. So `execute` needs room for one call
  more and stands in front of the words a problem came out of (`Session.executeWord_eq_executeTop`).
* A host runs a word by its name, and a user types the name. The first looks the name up below the
  open definition and has no input for the word to read from. The second looks it up everywhere and
  has an input, but with nothing left in it; no word can tell the two apart (`State.atEnd`). While
  interpreting there is no open definition, so the look-ups agree too (`Session.run_eq_execute`).
-/

namespace ThreadedForth

/-! ### Calling by reference -/

/-- All that an evaluation with some room needs of its limit is the reason for a refusal. -/
theorem evalCall_congr {limit limit' : Limit}
    (hrefusal : ∀ name, limit.refusal name = limit'.refusal name) (free : Nat) :
    evalCall limit free = evalCall limit' free := by
  induction free with
  | zero =>
      funext handle s
      simp only [evalCall, hrefusal]
  | succ free ih =>
      funext handle s
      simp only [evalCall, ih]

/-- A word whose code is `execute` evaluates to the word that is called, with what it failed with
marked as coming out of the one that called it. -/
theorem evalCall_execute {limit : Limit} {free : Nat} {handle : Int} {s : State} {w : Word}
    (hw : s.dict.word? handle = some w) (hcode : w.code = [.primitive (.system .execute)]) :
    evalCall limit (free + 1) handle s =
      (s.popRef.bind fun r s => evalCall limit free r.handle s).mapFault (.within [w.name]) := by
  rw [evalCall_succ limit hw, hcode]
  congr 1
  simp only [evalCode, evalCell, Primitive.run, SystemWord.run]
  cases s.popRef with
  | fail f t => rfl
  | ok r t =>
      simp only [Outcome.map_ok, Outcome.bind_ok]
      cases evalCall limit free r.handle t <;> rfl

namespace Session

/-- The host's call is the evaluation of the word that the reference leads to. -/
theorem executeTop_of_idle {limit : Limit} {m : Machine} (hm : m.calls = .empty) :
    executeTop limit m =
      (m.state.popRef.bind fun r s => evalCall limit limit.room r.handle s).mapState
        m.withState := by
  unfold executeTop
  cases m.state.popRef with
  | fail f s => rfl
  | ok r s =>
      have hidle : (m.withState s).calls = .empty := hm
      exact Machine.executeWord_of_idle hidle r.handle

/-- While no word is running, let the entry at a handle be the built-in `execute`. To execute it
under a limit of `n + 1` has the same outcome as the host's call of the reference on top of the
stack under a limit of `n`: the same machine, and the same success or fault, except that the words
that a problem came out of have `execute` in front. -/
theorem executeWord_eq_executeTop {n : Int} (hn : 0 ≤ n) {m : Machine} (hm : m.calls = .empty)
    {handle : Int} {w : Word} (hw : m.state.dict.word? handle = some w)
    (hname : w.name = SystemWord.execute.name)
    (hcode : w.code = [.primitive (.system .execute)]) :
    m.executeWord (.atMost (n + 1)) handle =
      (executeTop (.atMost n) m).mapFault (.within [SystemWord.execute.name]) := by
  have hroom : (Limit.atMost (n + 1)).room = (Limit.atMost n).room + 1 := by
    simp only [Limit.room]
    omega
  have hrefusal : ∀ name, (Limit.atMost (n + 1)).refusal name = (Limit.atMost n).refusal name :=
    fun _ => rfl
  rw [Machine.executeWord_of_idle hm, executeTop_of_idle hm, hroom, evalCall_execute hw hcode,
    hname, evalCall_congr hrefusal]
  cases m.state.popRef.bind fun r s => evalCall (.atMost n) (Limit.atMost n).room r.handle s <;> rfl

/-- A word that a host made call itself runs out of room either way, at the same depth below the
call. -/
theorem executeWord_eq_executeTop_cyclic :
    ∃ (m : Machine) (w : Word), 0 ≤ (2 : Int) ∧ m.calls = .empty ∧
      m.state.dict.word? 3 = some w ∧ w.name = SystemWord.execute.name ∧
      w.code = [.primitive (.system .execute)] ∧
      (executeTop (.atMost 2) m).fault? = some (.problem (.tooDeep "x") ["x", "x"]) ∧
      (m.executeWord (.atMost (2 + 1)) 3).fault? =
        some (.problem (.tooDeep "x") ["execute", "x", "x"]) ∧
      (m.executeWord (.atMost (2 + 1)) 3).state = (executeTop (.atMost 2) m).state := by
  obtain ⟨m, hidle, hw, hfault⟩ : ∃ m : Machine, m.calls = .empty ∧
      m.state.dict.word? 3 =
        some ⟨"execute", 3, false, false, true, [.primitive (.system .execute)]⟩ ∧
      (executeTop (.atMost 2) m).fault? = some (.problem (.tooDeep "x") ["x", "x"]) := by
    refine ⟨after (.atMost 2) .initial [.edit (.define "x"), .edit (.append 23 (.ref 23)),
      .push [.ref ⟨23, "x"⟩]], ?_, ?_, ?_⟩ <;> cbv
  have heq := executeWord_eq_executeTop (n := 2) (by decide) hidle hw rfl rfl
  obtain ⟨m', hm'⟩ := Outcome.exists_eq_fail hfault
  refine ⟨m, _, by decide, hidle, hw, rfl, rfl, hfault, ?_, ?_⟩
  · rw [heq, hm']
    rfl
  · rw [heq, hm']
    rfl

end Session

/-! ### Reading at the end of a source -/

namespace State

/-- The state with an input that has nothing left to read. -/
def atEnd (s : State) : State := s.withInput (some [])

@[simp] theorem stack_atEnd (s : State) : s.atEnd.stack = s.stack := rfl
@[simp] theorem dict_atEnd (s : State) : s.atEnd.dict = s.dict := rfl
@[simp] theorem mode_atEnd (s : State) : s.atEnd.mode = s.mode := rfl

theorem finish_atEnd (s : State) : s.atEnd.finish = s.finish.atEnd := by
  simp only [finish, dict_atEnd]
  cases s.dict.activeWord? <;> rfl

/-- A name is missing at the end of an input as it is without one. -/
theorem readName_atEnd {s : State} (h : s.input = none) (op : String) :
    s.atEnd.readName op = (s.readName op).mapState atEnd := by
  rw [readName_of_input_eq_none h]
  rfl

end State

theorem SystemWord.run_atEnd {s : State} (h : s.input = none) (w : SystemWord) :
    w.run s.atEnd = (w.run s).mapState State.atEnd := by
  cases w with
  | colon =>
      simp only [run, State.beginDefinition, State.dict_atEnd]
      cases s.dict.activeWord? <;> rfl
  | semicolon =>
      simp only [run, State.endDefinition, State.mode_atEnd, State.finish_atEnd]
      cases s.mode <;> rfl
  | tick =>
      simp only [run, State.tick, State.readName_atEnd h, State.readName_of_input_eq_none h]
      rfl
  | see =>
      simp only [run, State.see, State.readName_atEnd h, State.readName_of_input_eq_none h]
      rfl
  | words => rfl
  | execute =>
      simp only [run, State.popRef, State.stack_atEnd]
      cases s.stack with
      | nil => rfl
      | cons v rest =>
          cases v with
          | ref r => rfl
          | int n =>
              simp only
              cases (Value.int n).describe? <;> rfl
          | bool b => rfl
          | text t => rfl

/-- A primitive that has no input does the same at the end of one. -/
theorem Primitive.run_atEnd {s : State} (h : s.input = none) (p : Primitive) :
    p.run s.atEnd = (p.run s).mapState State.atEnd := by
  cases p with
  | inert name => rfl
  | system w => exact w.run_atEnd h
  | data w =>
      simp only [run, DataWord.runOn, State.stack_atEnd]
      cases w.run s.stack <;> rfl

theorem interchangeable_atEnd : Interchangeable fun s t => s.input = none ∧ t = s.atEnd where
  dict_eq := by
    rintro s t ⟨-, rfl⟩
    rfl
  push := by
    rintro s t v ⟨h, rfl⟩
    exact ⟨h, rfl⟩
  run := by
    rintro s t p ⟨h, rfl⟩
    have hinput := p.input_run h
    rw [p.run_atEnd h]
    cases hp : p.run s with
    | ok wanted u =>
        rw [hp] at hinput
        exact .ok ⟨hinput, rfl⟩
    | fail f u =>
        rw [hp] at hinput
        exact .fail ⟨hinput, rfl⟩

namespace Machine

/-- The machine with an input that has nothing left to read. -/
def atEnd (m : Machine) : Machine := m.withState m.state.atEnd

variable {limit : Limit} {m : Machine}

/-- Without the input it is the same machine as before. -/
theorem withInput_atEnd (h : m.state.input = none) :
    m.atEnd.withState (m.atEnd.state.withInput none) = m := by
  obtain ⟨⟨stack, dict, mode, input, out, log⟩, calls⟩ := m
  obtain rfl : input = none := h
  rfl

theorem executeWord_atEnd (hm : m.AtRest) (handle : Int) :
    m.atEnd.executeWord limit handle = (m.executeWord limit handle).mapState atEnd := by
  have hidle : m.atEnd.calls = .empty := hm.idle
  refine (interchangeable_atEnd.executeWord limit handle hm.idle hidle
    ⟨hm.noInput, rfl⟩).eq_mapState ?_
  rintro ⟨s, calls⟩ ⟨t, calls'⟩ ⟨hcalls, hcalls', -, hstate⟩
  obtain rfl : calls = .empty := hcalls
  obtain rfl : calls' = .empty := hcalls'
  obtain rfl : t = s.atEnd := hstate
  rfl

theorem runName_atEnd (hm : m.AtRest) (lookup : Dictionary → String → Option Nat)
    (name : String) : m.atEnd.runName limit lookup name =
      (m.runName limit lookup name).mapState atEnd := by
  have hdict : m.atEnd.state.dict = m.state.dict := rfl
  simp only [runName, hdict]
  cases lookup m.state.dict name with
  | none => rfl
  | some h => exact executeWord_atEnd hm h

/-- While interpreting, a source that is a single name runs the word of this name. -/
theorem interpret_name (hm : m.AtRest) (hmode : m.state.mode = .interpret)
    (hactive : m.state.dict.active = none) (name : String) :
    m.interpret limit false [.name name] = m.runName limit Dictionary.lookup name := by
  have hconsume : (m.withState (m.state.withInput (some [.name name]))).consume limit =
      (m.atEnd.runName limit Dictionary.lookup name).bind fun _ m' => m'.consume limit := by
    have hmode' : m.atEnd.state.mode = .interpret := hmode
    have hactive' : m.atEnd.state.dict.active.isSome = false := by
      show m.state.dict.active.isSome = false
      rw [hactive]
      rfl
    have hdispatch : m.atEnd.dispatch limit (.name name) =
        m.atEnd.runName limit Dictionary.lookup name := by
      simp only [dispatch, hmode', interpretToken, hactive', Bool.false_eq_true, if_false]
    rw [consume_cons rfl, ← hdispatch]
    rfl
  have hinput : (m.runName limit Dictionary.lookup name).state.state.input = none :=
    Session.input_runName hm Dictionary.lookup name
  simp only [interpret, hconsume, runName_atEnd hm, hm.noInput]
  -- Nothing is left to read after the word, and then the input is taken away again.
  cases hrun : m.runName limit Dictionary.lookup name with
  | fail f m' =>
      rw [hrun] at hinput
      simp only [Outcome.mapState_fail, Outcome.bind_fail]
      rw [withInput_atEnd (m := m') hinput]
  | ok a m' =>
      rw [hrun] at hinput
      have hpending : m'.atEnd.state.pending = 0 := rfl
      simp only [Outcome.mapState_ok, Outcome.bind_ok, consume_of_pending_eq_zero hpending,
        Bool.false_and, Bool.false_eq_true, if_false]
      rw [withInput_atEnd (m := m') hinput]

end Machine

namespace Session

variable {limit : Limit} {m : Machine}

/-- Between two commands the interpreter is at rest. -/
theorem atRest_of_reaches (hm : Reaches limit m) : m.AtRest := by
  induction hm with
  | fresh => exact ⟨rfl, rfl⟩
  | perform c _ _ ih => exact atRest_perform ih c

/-- In a session driven by source, while interpreting, let a text be a single name. Then running the
word of this name is the same as executing the text, as a piece of source that need not be the last
one: the same machine is left, with the same success or the same fault out of the same words,
whatever the name means, and also if it means nothing. -/
theorem run_eq_execute (hm : Reaches limit m) (hmode : m.state.mode = .interpret) {name : String}
    (hname : tokenize name = [.name name]) :
    perform limit m (.run name) = perform limit m (.execute name false) := by
  have hcoherent := (Machine.Sound.of_reaches hm).state.coherent
  rw [hmode] at hcoherent
  have hactive : m.state.dict.active = none := hcoherent.active_eq_none
  have hlookup : m.runName limit Dictionary.lookupOutside name =
      m.runName limit Dictionary.lookup name := by
    simp only [Machine.runName, Dictionary.lookupOutside_of_active_eq_none hactive]
  simp only [perform, Machine.execute, hname, hlookup,
    Machine.interpret_name (atRest_of_reaches hm) hmode hactive]

/-- A word that begins a definition leaves the interpreter compiling either way, as a piece of
source that is not the last one may do. -/
theorem run_eq_execute_begin :
    ∃ m : Machine, Reaches (.atMost 9) m ∧ m.state.mode = .interpret ∧
      tokenize "begin" = [.name "begin"] ∧
      (perform (.atMost 9) m (.run "begin")).2.state.state.mode = .compile ∧
      perform (.atMost 9) m (.run "begin") = perform (.atMost 9) m (.execute "begin" false) := by
  obtain ⟨m, hm, hmode, hcompile⟩ : ∃ m : Machine, Reaches (.atMost 9) m ∧
      m.state.mode = .interpret ∧
      (perform (.atMost 9) m (.run "begin")).2.state.state.mode = .compile :=
    ⟨_, .perform (.execute ": begin : ;" true) trivial .fresh, by cbv, by cbv⟩
  have hname : tokenize "begin" = [.name "begin"] := by decide +kernel
  exact ⟨m, hm, hmode, hname, hcompile, run_eq_execute hm hmode hname⟩

end Session

end ThreadedForth
