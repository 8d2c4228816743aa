import Mathlib
import ThreadedForth.Proofs.Renumbering
/-!
# ThreadedForth.Proofs.Forgetting

The same run without one of the entries.

`State.forget` takes the entry at `k` out of a state. If the entry is buried, every primitive does
the same to the state without it, and what it leaves behind is again the other result without the
entry (`State.run_forget`). The logs differ, because events tell handles; so each of the two keeps
its own.

From primitives the comparison goes on to words (`evalCall_parallel`). There the renumbering has to
hit the right word in every call. In code that is so because code refers to offered words only; a
reference that `execute` takes was on the stack, hence it has to be known as well that references
there are honest. So the two states are compared together with the soundness of the first one
(`State.Parallel`), and a run tells, besides, that it went on from where it began
(`State.Onward`): the code of a word is admitted by the dictionary in which the word was called.
-/

namespace ThreadedForth

/-! ### States -/

namespace State

variable {k : Nat} {log : List Event} {s t : State}

/-- The state without the entry at `k`, and with a log of its own. -/
def forget (k : Nat) (log : List Event) (s : State) : State :=
  { s with stack := Stack.lower k s.stack, dict := s.dict.without k, log }

@[simp] theorem stack_forget : (s.forget k log).stack = Stack.lower k s.stack := rfl
@[simp] theorem dict_forget : (s.forget k log).dict = s.dict.without k := rfl
@[simp] theorem mode_forget : (s.forget k log).mode = s.mode := rfl
@[simp] theorem input_forget : (s.forget k log).input = s.input := rfl

/-- Finishing is an operation on the dictionary, but for the log. -/
theorem finish_eq (s : State) : ∃ log, s.finish = { s with dict := s.dict.finish, log } := by
  unfold finish
  split <;> exact ⟨_, rfl⟩

/-- Abandoning is an operation on the dictionary, but for the log. -/
theorem abandon_eq (s : State) : ∃ log, s.abandon = { s with dict := s.dict.abandon, log } := by
  unfold abandon
  split <;> exact ⟨_, rfl⟩

/-- Reading a name looks at the input only, which has no handles in it. -/
theorem commutes_readName (op : String) : Outcome.Commutes (forget k log) (readName op) := by
  intro s
  unfold readName
  rw [input_forget]
  split <;> rfl

section

variable (hd : s.dict.Coherent s.mode) (hk : s.dict.Buries k)
include hd hk

/-- A name is resolved to the same entry, renumbered. -/
theorem resolve_forget (name : String) :
    (s.forget k log).resolve name =
      ((s.resolve name).map (Word.lower k)).mapState (forget k log) := by
  unfold resolve
  rw [dict_forget, hk.lookupOutside_without hd]
  cases hl : s.dict.lookupOutside name with
  | none => rfl
  | some i =>
      obtain ⟨w, hw, -⟩ := hd.offers_of_lookupOutside hl
      have hw' : (s.dict.without k).entries[lower k i]? = some (w.lower k) := by
        rw [Dictionary.entries_without (hk.ne_of_offers hw), hw.1]
        rfl
      simp only [Option.map_some, Option.bind_some, hw', hw.1]
      rfl

/-- Reading a name and looking it up finds the renumbered word. -/
theorem named_forget {op : String} {next : Word → State → Outcome State Unit}
    (hnext : ∀ w s, next (w.lower k) (s.forget k log) = (next w s).mapState (forget k log)) :
    (((s.forget k log).readName op).bind fun name t => (t.resolve name).bind next) =
      ((s.readName op).bind fun name t => (t.resolve name).bind next).mapState (forget k log) := by
  rw [commutes_readName op s]
  cases hr : s.readName op with
  | fail f t => rfl
  | ok name t =>
      obtain ⟨hdict, hmode⟩ : t.dict = s.dict ∧ t.mode = s.mode := by
        unfold readName at hr
        split at hr
        · cases hr
          exact ⟨rfl, rfl⟩
        · simp at hr
      simp only [Outcome.mapState_ok, Outcome.bind_ok]
      rw [resolve_forget (by rwa [hdict, hmode]) (by rwa [hdict])]
      cases t.resolve name with
      | ok w u => exact hnext w u
      | fail f u => rfl

theorem finish_forget (log : List Event) :
    ∃ log', (s.forget k log).finish = s.finish.forget k log' := by
  obtain ⟨_, hs⟩ := s.finish_eq
  obtain ⟨log', ht⟩ := (s.forget k log).finish_eq
  refine ⟨log', ?_⟩
  rw [ht, hs, dict_forget, ← hk.finish_without hd]
  rfl

theorem abandon_forget (log : List Event) :
    ∃ log', (s.forget k log).abandon = s.abandon.forget k log' := by
  obtain ⟨_, hs⟩ := s.abandon_eq
  obtain ⟨log', ht⟩ := (s.forget k log).abandon_eq
  refine ⟨log', ?_⟩
  rw [ht, hs, dict_forget, ← hk.abandon_without hd]
  rfl

/-- Whether a definition can end does not depend on the entry that is gone. -/
theorem endDefinition_forget (log : List Event) :
    ∃ log', (s.forget k log).endDefinition = s.endDefinition.mapState (forget k log') := by
  obtain ⟨log', hfinish⟩ := finish_forget hd hk log
  unfold endDefinition
  rw [mode_forget, hfinish]
  cases s.mode with
  | interpret => exact ⟨log, rfl⟩
  | compile => exact ⟨log', rfl⟩

end

/-- The reference that is taken is the same one, renumbered. -/
theorem popRef_forget :
    (s.forget k log).popRef = (s.popRef.map (WordRef.lower k)).mapState (forget k log) := by
  unfold popRef
  rw [stack_forget]
  cases s.stack with
  | nil => rfl
  | cons v rest =>
      cases v with
      | int n =>
          simp only [Stack.lower, List.map_cons, Value.lower]
          cases (Value.int n).describe? <;> rfl
      | _ => rfl

/-- A primitive does the same without the entry, and wants the renumbered word called. -/
theorem run_forget (hd : s.dict.Coherent s.mode) (hk : s.dict.Buries k) (p : Primitive)
    (log : List Event) :
    ∃ log', p.run (s.forget k log) =
      ((p.run s).map (Option.map (WordRef.lower k))).mapState (forget k log') := by
  cases p with
  | inert name => exact ⟨log, rfl⟩
  | data w =>
      refine ⟨log, ?_⟩
      simp only [Primitive.run, DataWord.runOn, stack_forget]
      rw [w.commutes_run k s.stack]
      cases w.run s.stack <;> rfl
  | system w =>
      cases w with
      | colon =>
          refine ⟨log, ?_⟩
          simp only [Primitive.run, SystemWord.run, beginDefinition, dict_forget,
            hk.activeWord?_without hd]
          cases s.dict.activeWord? <;> rfl
      | semicolon =>
          obtain ⟨log', hend⟩ := endDefinition_forget hd hk log
          refine ⟨log', ?_⟩
          simp only [Primitive.run, SystemWord.run, hend]
          cases s.endDefinition <;> rfl
      | tick =>
          refine ⟨log, ?_⟩
          have htick : (s.forget k log).tick = s.tick.mapState (forget k log) :=
            named_forget hd hk fun w s => by
              rw [Word.ref_lower]
              rfl
          simp only [Primitive.run, SystemWord.run, htick]
          cases s.tick <;> rfl
      | execute =>
          refine ⟨log, ?_⟩
          simp only [Primitive.run, SystemWord.run, popRef_forget]
          cases s.popRef <;> rfl
      | words =>
          refine ⟨log, ?_⟩
          simp only [Primitive.run, SystemWord.run, listWords, dict_forget, hk.names_without]
          rfl
      | see =>
          refine ⟨log, ?_⟩
          have hsee : (s.forget k log).see = s.see.mapState (forget k log) :=
            named_forget hd hk fun w s => by
              rw [Word.source?_lower]
              cases w.source? <;> rfl
          simp only [Primitive.run, SystemWord.run, hsee]
          cases s.see <;> rfl

/-- `t` is `s` without the entry at `k`, but for the log. -/
def Without (k : Nat) (s t : State) : Prop := ∃ log, t = s.forget k log

/-- What is known of two states that go on side by side, one of them without the entry at `k`: the
first one is sound, and has the entry buried. -/
structure Parallel (k : Nat) (s t : State) : Prop where
  sound : s.Sound
  buries : s.dict.Buries k
  without : Without k s t

/-- The two states go on from `s`. -/
def Onward (k : Nat) (s s' t' : State) : Prop := s.Follows s' ∧ Parallel k s' t'

theorem Parallel.onward (h : Parallel k s t) : Onward k s s t := ⟨h.sound.refl, h⟩

/-- What comes after a state that followed an earlier one goes on from the earlier one. -/
theorem Onward.after {s' t' : State} (h : Onward k s s' t') {s₀ : State} (h₀ : s₀.Follows s) :
    Onward k s₀ s' t' :=
  ⟨h₀.trans h.1, h.2⟩

/-- A primitive run on both sides leaves two states that can be compared again. -/
theorem Parallel.alike_run (h : Parallel k s t) (p : Primitive) :
    Outcome.Alike (Onward k s) ((p.run s).map (Option.map (WordRef.lower k))) (p.run t) := by
  obtain ⟨log, rfl⟩ := h.without
  obtain ⟨log', hrun⟩ := run_forget h.sound.coherent h.buries p log
  have hfollows := h.sound.run p
  have hretains := (p.finishes_run s).retains
  rw [hrun]
  cases hp : p.run s with
  | ok wanted s' =>
      rw [hp] at hfollows hretains
      exact .ok ⟨hfollows, hfollows.1, h.buries.mono hretains, log', rfl⟩
  | fail f s' =>
      rw [hp] at hfollows hretains
      exact .fail ⟨hfollows, hfollows.1, h.buries.mono hretains, log', rfl⟩

end State

/-! ### Words -/

section

open State (Parallel Onward)

variable {limit : Limit} {k : Nat} {s t : State}

section

variable {call : Int → State → Outcome State Unit}
  (hcall : ∀ {i : Nat} {w : Word} {s t : State}, s.dict.Offers i w → Parallel k s t →
    Outcome.Alike (Onward k s) (call i s) (call (lower k i) t))
include hcall

/-- A cell that the dictionary admits does the same on both sides, under its number there. -/
theorem evalCell_parallel {i : Nat} {c : Cell} (hc : s.dict.Admits i c) (h : Parallel k s t) :
    Outcome.Alike (Onward k s) (evalCell call c s) (evalCell call (c.lower k) t) := by
  cases c with
  | literal v =>
      obtain ⟨n, rfl⟩ := hc
      obtain ⟨log, rfl⟩ := h.without
      have hpush : s.Follows (s.push (.int n)) := h.sound.withStack (.push_int (.refl _) n)
      exact .ok ⟨hpush, hpush.1, h.buries, log, rfl⟩
  | word r =>
      obtain ⟨j, w, hw, rfl, -⟩ := hc
      simp only [Cell.lower, evalCell, WordRef.lower_natCast]
      exact hcall hw h
  | primitive p =>
      refine .bind_map (h.alike_run p) (fun hst => hst) fun wanted s' t' hp hst => ?_
      cases wanted with
      | none => exact .ok hst
      | some r =>
          -- The reference was on the stack, so its word is offered.
          obtain ⟨rest, hs, -⟩ := State.popRef_eq_ok (Primitive.run_eq_ok_some hp).2
          have hr := (h.sound.denotes r (by rw [hs]; exact List.mem_cons_self)).mono hst.1.2
          obtain ⟨j, w, hw, rfl⟩ := hr
          have hword := hcall hw hst.2
          simp only [Option.map_some, WordRef.lower_natCast]
          exact hword.mono fun hst' => hst'.after hst.1

/-- So does a list of cells. Each of them is admitted by the dictionary at the start, hence by the
one it is run in. -/
theorem evalCode_parallel {i : Nat} (code : List Cell) : ∀ {s t : State},
    (∀ c ∈ code, s.dict.Admits i c) → Parallel k s t →
      Outcome.Alike (Onward k s) (evalCode call code s)
        (evalCode call (code.map (Cell.lower k)) t) := by
  induction code with
  | nil => exact fun _ h => .ok h.onward
  | cons c code ih =>
      intro s t hcode h
      have hcell := evalCell_parallel hcall (hcode c List.mem_cons_self) h
      refine .bind hcell (fun hst => hst) fun _ s' t' hst => ?_
      have hrest : ∀ b ∈ code, s'.dict.Admits i b := fun b hb =>
        (hcode b (List.mem_cons_of_mem c hb)).mono hst.1.2
      exact (ih hrest hst.2).mono fun hst' => hst'.after hst.1

end

/-- A word that is offered does the same in both states, one of which calls it by the renumbered
handle. -/
theorem evalCall_parallel (limit : Limit) (free : Nat) : ∀ {i : Nat} {w : Word} {s t : State},
    s.dict.Offers i w → Parallel k s t →
      Outcome.Alike (Onward k s) (evalCall limit free i s) (evalCall limit free (lower k i) t) := by
  have hword : ∀ {i : Nat} {w : Word} {s t : State}, s.dict.Offers i w → Parallel k s t →
      t.dict.word? (lower k i) = some (w.lower k) := by
    intro i w s t hw h
    obtain ⟨log, rfl⟩ := h.without
    rw [State.dict_forget, Dictionary.word?_without (h.buries.ne_of_offers hw), hw.word?_eq]
    rfl
  induction free with
  | zero =>
      intro i w s t hw h
      rw [evalCall_zero limit hw.word?_eq, evalCall_zero limit (hword hw h)]
      exact .fail h.onward
  | succ free ih =>
      intro i w s t hw h
      rw [evalCall_succ limit hw.word?_eq, evalCall_succ limit (hword hw h)]
      exact (evalCode_parallel ih w.code (h.sound.coherent.admits hw.1) h).mapFault _

end

end ThreadedForth
