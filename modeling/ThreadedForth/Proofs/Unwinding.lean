import Mathlib
import ThreadedForth.Proofs.Lockstep
import ThreadedForth.Proofs.Soundness
/-!
# ThreadedForth.Proofs.Unwinding

What the interpreter needs while it is busy is put away again when it is done.

Two things exist only within a command: the frames of the words that are running, and the input that
tokens are taken from. Frames come from three places and go in three ways, and the input is replaced
whenever a source is handed in; any of this can happen around a failure. Still every command, also
one of a host that has put the dictionary in disorder or forged references, ends with no word
running and no source being read (`Machine.AtRest`).

On the way there the frames stay within bounds on both sides. A step adds a frame only if the limit
has room for it, and takes one away only above those that were there when the word was called
(`Machine.Above`). The names that a problem is reported with are those of the frames, so there are
no more of them either (`Fault.TraceAtMost`).
-/

namespace ThreadedForth

/-- A problem is reported with at most `n` names. -/
def Fault.TraceAtMost (n : Nat) : Fault → Prop
  | problem _ trace => trace.length ≤ n
  | _ => True

/-- A fault without a trace is within every bound. -/
theorem Fault.Untraced.traceAtMost {f : Fault} (h : f.Untraced) (n : Nat) : f.TraceAtMost n := by
  cases f with
  | problem p trace =>
      obtain rfl : trace = [] := h
      exact Nat.zero_le n
  | _ => trivial

/-- The trace of a fault that had none is that of the run. -/
theorem Fault.Untraced.traceAtMost_traced {f : Fault} (h : f.Untraced) {n : Nat}
    {names : List String} (hnames : names.length ≤ n) : (f.traced names).TraceAtMost n := by
  cases f with
  | problem p trace =>
      obtain rfl : trace = [] := h
      exact hnames
  | _ => trivial

/-! ### Dictionaries -/

namespace Dictionary

/-- Refusing a cell names no running word. -/
theorem extend_ensures (d : Dictionary) (k : Nat) (c : Cell) :
    (d.extend k c).Ensures (fun _ => True) Fault.Untraced := by
  unfold extend
  cases hw : d.entries[k]? with
  | none => exact .fail trivial trivial
  | some w =>
      by_cases hsealed : w.sealed = true
      · simp only [if_pos hsealed]
        exact .fail trivial rfl
      · simp only [if_neg hsealed]
        exact .ok trivial

theorem modifyAt_ensures (d : Dictionary) (handle : Int) (f : Word → Word) :
    (d.modifyAt handle f).Ensures (fun _ => True) Fault.Untraced := by
  unfold modifyAt
  cases position? d.size handle with
  | none => exact .fail trivial trivial
  | some k => exact .ok trivial

theorem inspectAt_ensures (d : Dictionary) (handle : Int) (f : Word → Reply) :
    (d.inspectAt handle f).Ensures (fun _ => True) Fault.Untraced := by
  unfold inspectAt
  cases d.word? handle with
  | none => exact .fail trivial trivial
  | some w => exact .ok trivial

theorem append_ensures (d : Dictionary) (handle : Int) (cell : CellSource) :
    (d.append handle cell).Ensures (fun _ => True) Fault.Untraced := by
  unfold append
  cases position? d.size handle with
  | none => exact .fail trivial trivial
  | some k =>
      cases d.cell cell with
      | error i => exact .fail trivial trivial
      | ok c => exact .map _ (d.extend_ensures k c)

/-- A host that edits the dictionary is not inside any word. -/
theorem perform_ensures (d : Dictionary) (e : Edit) :
    (d.perform e).Ensures (fun _ => True) Fault.Untraced := by
  cases e with
  | markImmediate handle => exact d.modifyAt_ensures handle _
  | close handle => exact d.modifyAt_ensures handle _
  | word handle => exact d.inspectAt_ensures handle _
  | summary handle => exact d.inspectAt_ensures handle _
  | append handle cell => exact d.append_ensures handle cell
  | _ => exact .ok trivial

end Dictionary

/-! ### Frames -/

namespace Machine

variable {limit : Limit} {m m' : Machine} {base : Nat} {handle : Int}

/-- A call that fails changes nothing. -/
theorem call_of_fail {f : Fault} (h : m.call limit handle = .fail f m') :
    m' = m ∧ f.Untraced := by
  unfold call at h
  cases hw : m.state.dict.word? handle with
  | none =>
      rw [hw] at h
      cases h
      exact ⟨rfl, trivial⟩
  | some w =>
      simp only [hw, enter, Limit.refusal?_eq] at h
      by_cases hroom : m.calls.depth < limit.room
      · simp [if_pos hroom] at h
      · rw [if_neg hroom] at h
        cases h
        exact ⟨rfl, limit.untraced_refusal w.name⟩

/-- A cell that fails leaves the frames alone, and no running word has been recorded yet. -/
theorem calls_runCell_of_fail {c : Cell} {f : Fault} (h : m.runCell limit c = .fail f m') :
    m'.calls = m.calls ∧ f.Untraced := by
  cases c with
  | literal v => simp [runCell] at h
  | word r =>
      obtain ⟨rfl, hf⟩ := call_of_fail h
      exact ⟨rfl, hf⟩
  | primitive p =>
      have hplain := p.plain_run m.state
      simp only [runCell, runPrimitive] at h
      cases hp : p.run m.state with
      | fail g s =>
          rw [hp] at h hplain
          cases h
          exact ⟨rfl, (hplain.2 f rfl).untraced⟩
      | ok wanted s =>
          rw [hp] at h
          cases wanted with
          | none => simp at h
          | some r =>
              obtain ⟨rfl, hf⟩ := call_of_fail (m := m.withState s) h
              exact ⟨rfl, hf⟩

/-- The machine has the frames of `outer`, perhaps with others above them, and no more frames in all
than the limit has room for. -/
structure Above (limit : Limit) (outer : CallStack) (m : Machine) : Prop where
  suffix : outer.frames <:+ m.calls.frames
  room : m.calls.depth ≤ limit.room

namespace Above

variable {outer : CallStack}

/-- What leaves the frames alone stays within the bounds. -/
theorem of_calls_eq (h : m.Above limit outer) (heq : m'.calls = m.calls) :
    m'.Above limit outer := by
  obtain ⟨hsuffix, hroom⟩ := h
  rw [← heq] at hsuffix hroom
  exact ⟨hsuffix, hroom⟩

/-- A frame may be pushed if there is room for it. -/
theorem push {f : Frame} (h : m.Above limit outer) (hroom : m.calls.depth < limit.room)
    (heq : m'.calls = m.calls.push f) : m'.Above limit outer := by
  refine ⟨?_, ?_⟩
  · rw [heq]
    exact h.suffix.trans (List.suffix_cons f _)
  · rw [heq]
    exact hroom

/-- As long as there are frames above those of `outer`, a step leaves the latter alone. -/
theorem step (h : m.Above limit outer) (hlt : outer.depth < m.calls.depth) :
    (m.step limit).state.Above limit outer := by
  obtain ⟨f, below, hf⟩ : ∃ f below, m.calls.frames = f :: below := by
    refine List.exists_cons_of_ne_nil ?_
    intro hnil
    rw [m.calls.depth_eq, hnil] at hlt
    exact Nat.not_lt_zero _ hlt
  have hdepth : m.calls.depth = below.length + 1 := by
    rw [m.calls.depth_eq, hf]
    rfl
  -- The innermost frame is not one of `outer`.
  have hsuffix : outer.frames <:+ below := by
    rcases List.suffix_cons_iff.1 (hf ▸ h.suffix) with heq | hsuffix
    · have hlength := congrArg List.length heq
      rw [← outer.depth_eq, List.length_cons] at hlength
      omega
    · exact hsuffix
  simp only [Machine.step, hf]
  cases hrest : f.rest with
  | nil =>
      refine ⟨?_, ?_⟩
      · simpa [hf] using hsuffix
      · exact Nat.le_trans (Nat.sub_le _ _) h.room
  | cons c rest =>
      -- The cell is taken from the frame before it is run.
      have hnext : Above limit outer
          { m with calls := m.calls.pop.push { f with rest } } := by
        refine ⟨?_, ?_⟩
        · have hpop : outer.frames <:+ m.calls.pop.frames := by simpa [hf] using hsuffix
          exact hpop.trans (List.suffix_cons _ _)
        · have hroom := h.room
          simp only [CallStack.depth_push, CallStack.depth_pop]
          omega
      show (runCell limit c { m with calls := m.calls.pop.push { f with rest } }).state.Above
        limit outer
      cases hcell : runCell limit c { m with calls := m.calls.pop.push { f with rest } } with
      | fail e m' => exact hnext.of_calls_eq (calls_runCell_of_fail hcell).1
      | ok a m' =>
          rcases calls_runCell hcell with heq | ⟨hroom, w, -, heq⟩
          · exact hnext.of_calls_eq heq
          · exact hnext.push hroom heq

/-- The frames stay within the bounds at every moment of a run, by induction on its steps. -/
theorem of_duringRun (hd : DuringRun limit outer.depth m m') (h : m.Above limit outer) :
    m'.Above limit outer := by
  induction hd with
  | here m => exact h
  | @step m m₁ m' hlt hstep _ ih =>
      have hnext := h.step hlt
      rw [hstep] at hnext
      exact ih hnext
  | @failed m m' f hlt hstep =>
      have hnext := h.step hlt
      rw [hstep] at hnext
      exact hnext

/-- Unwinding gives back the frames that were there before. -/
theorem calls_unwind_eq (h : m.Above limit outer) : m.calls.unwind outer.depth = outer := by
  obtain ⟨above, habove⟩ := h.suffix
  apply CallStack.ext
  rw [CallStack.frames_unwind, m.calls.depth_eq, outer.depth_eq, ← habove, List.length_append,
    Nat.add_sub_cancel, List.drop_left]

/-- A called word has its frame above those of the caller. -/
theorem of_call (h : m.call limit handle = .ok () m') : m'.Above limit m.calls := by
  obtain ⟨hroom, w, -, heq⟩ := calls_call h
  have hm : m.Above limit m.calls := ⟨List.suffix_refl _, Nat.le_of_lt hroom⟩
  exact hm.push hroom heq

end Above

/-! ### Runs of words -/

/-- Where a run ends is one of the moments it passes through. -/
theorem duringRun_run (limit : Limit) (base : Nat) (m : Machine) :
    DuringRun limit base m (m.run limit base).state := by
  fun_induction run limit base m with
  | case1 m hbase m₁ hstep ih => exact .step hbase hstep ih
  | case2 m hbase f m₁ hstep => exact .failed hbase hstep
  | case3 m hbase => exact .here m

/-- A fault gets its trace at the end of a run, not in a step. -/
theorem untraced_step {f : Fault} (h : m.step limit = .fail f m') : f.Untraced := by
  unfold step at h
  cases hframes : m.calls.frames with
  | nil => simp [hframes] at h
  | cons g below =>
      simp only [hframes] at h
      cases hrest : g.rest with
      | nil => simp [hrest] at h
      | cons c rest =>
          simp only [hrest] at h
          exact (calls_runCell_of_fail h).2

theorem untraced_run (limit : Limit) (base : Nat) (m : Machine) :
    ∀ f, (m.run limit base).fault? = some f → f.Untraced := by
  fun_induction run limit base m with
  | case1 m hbase m₁ hstep ih => exact ih
  | case2 m hbase f m₁ hstep =>
      intro g hg
      obtain rfl : f = g := by simpa using hg
      exact untraced_step hstep
  | case3 m hbase =>
      intro g hg
      simp at hg

/-- However a word ends, the frames are then what they were before. -/
theorem calls_executeWord_eq (limit : Limit) (handle : Int) (m : Machine) :
    (m.executeWord limit handle).state.calls = m.calls := by
  rw [executeWord_eq_settle]
  cases hcall : m.call limit handle with
  | fail f m₁ =>
      obtain ⟨rfl, -⟩ := call_of_fail hcall
      rfl
  | ok a m₁ =>
      have habove := (Above.of_call hcall).of_duringRun (duringRun_run limit _ m₁)
      simp only
      cases hrun : m₁.run limit m.calls.depth with
      | ok a m₂ =>
          rw [hrun] at habove
          exact habove.calls_unwind_eq
      | fail f m₂ =>
          rw [hrun] at habove
          exact habove.calls_unwind_eq

/-- A problem that comes out of a word is reported with the names of its frames. -/
theorem traceAtMost_executeWord (limit : Limit) (handle : Int) (m : Machine) :
    ∀ f, (m.executeWord limit handle).fault? = some f → f.TraceAtMost limit.room := by
  intro f hf
  rw [executeWord_eq_settle] at hf
  cases hcall : m.call limit handle with
  | fail g m₁ =>
      rw [hcall] at hf
      obtain rfl : g = f := by simpa using hf
      exact (call_of_fail hcall).2.traceAtMost _
  | ok a m₁ =>
      rw [hcall] at hf
      have habove := (Above.of_call hcall).of_duringRun (duringRun_run limit _ m₁)
      have huntraced := untraced_run limit m.calls.depth m₁
      simp only at hf
      cases hrun : m₁.run limit m.calls.depth with
      | ok a m₂ => simp [hrun, settle] at hf
      | fail g m₂ =>
          rw [hrun] at hf habove huntraced
          obtain rfl : g.traced m₂.trace = f := by simpa [settle] using hf
          refine (huntraced g rfl).traceAtMost_traced ?_
          rw [trace, CallStack.names, List.length_reverse, List.length_map, ← m₂.calls.depth_eq]
          exact habove.room

/-- A word never loses a frame that was there before it. -/
theorem suffix_of_duringWord (hd : DuringWord limit handle m m') :
    m.calls.frames <:+ m'.calls.frames := by
  cases hd with
  | before => exact List.suffix_refl _
  | within hcall hrun => exact ((Above.of_call hcall).of_duringRun hrun).suffix
  | after => rw [calls_executeWord_eq]

/-- No moment of the execution of a word is deeper than the limit allows. -/
theorem depth_le_of_duringWord (hm : m.calls.depth ≤ limit.room)
    (hd : DuringWord limit handle m m') : m'.calls.depth ≤ limit.room := by
  cases hd with
  | before => exact hm
  | within hcall hrun => exact ((Above.of_call hcall).of_duringRun hrun).room
  | after =>
      rw [calls_executeWord_eq]
      exact hm

theorem depth_le_of_idle (limit : Limit) (hm : m.calls = .empty) : m.calls.depth ≤ limit.room := by
  rw [hm]
  exact Nat.zero_le _

/-- No problem is reported with more names than the limit has room for. -/
theorem trace_invariant (limit : Limit) :
    Invariant limit (fun m => m.calls = .empty) (Fault.TraceAtMost limit.room) where
  act := by
    intro a m _ hm
    have hword : ∀ (handle : Int) {m : Machine}, m.calls = .empty →
        (m.executeWord limit handle).Ensures (fun m => m.calls = .empty)
          (Fault.TraceAtMost limit.room) := by
      intro handle m hm
      exact ⟨calls_executeWord hm handle, traceAtMost_executeWord limit handle m⟩
    have hshort : ∀ f : Fault, f.Untraced → f.TraceAtMost limit.room := by
      intro f hf
      exact hf.traceAtMost _
    have hplain : ∀ f : Fault, f.Plain → f.TraceAtMost limit.room := by
      intro f hf
      exact hshort f hf.untraced
    cases a with
    | word h => exact hword h hm
    | top =>
        refine .bind (.mapState (m.state.popRef_ensures.mono (fun _ _ => hm) hplain)) ?_
        intro r m' _ hm'
        exact hword r.handle hm'
    | pop => exact .map _ (.mapState ((Stack.tame_pop _ _).mono (fun _ _ => hm) hplain))
    | extend k c => exact .mapState ((m.state.dict.extend_ensures k c).mono (fun _ _ => hm) hshort)
    | endDefinition => exact .mapState (m.state.endDefinition_ensures.mono (fun _ _ => hm) hplain)
    | _ => exact ⟨calls_act _ hm, fun f hf => by simp [Act.perform] at hf⟩
  plain := fun hf => hf.untraced.traceAtMost _

end Machine

/-! ### The input -/

theorem Outcome.state_ofText? {σ α : Type} (text : Option α) (s : σ) :
    (ofText? text s).state = s := by
  cases text <;> rfl

namespace State

/-- With no input, a name cannot be read. -/
theorem readName_of_input_eq_none {s : State} (h : s.input = none) (op : String) :
    s.readName op = .fail (.raise (.missingName op)) s := by
  simp [readName, h]

end State

/-- A word that runs with no input leaves none behind. -/
theorem Primitive.input_run {s : State} (h : s.input = none) (p : Primitive) :
    (p.run s).state.input = none := by
  cases p with
  | inert name => exact h
  | data w =>
      obtain ⟨stack, text, -, heq⟩ := (w.runOn_ensures s).1
      rw [run, heq]
      exact h
  | system w =>
      cases w with
      | colon =>
          rw [run, SystemWord.run, Outcome.state_map, State.beginDefinition]
          split <;> exact h
      | semicolon =>
          rw [run, SystemWord.run, Outcome.state_map, State.endDefinition]
          split
          · exact h
          · rw [Outcome.state_ok, State.input_finish]
            exact h
      | tick =>
          rw [run, SystemWord.run, State.tick, State.readName_of_input_eq_none h]
          exact h
      | see =>
          rw [run, SystemWord.run, State.see, State.readName_of_input_eq_none h]
          exact h
      | words => exact h
      | execute =>
          rw [run, SystemWord.run, Outcome.state_map]
          rcases s.popRef_ensures.1 with heq | ⟨v, rest, -, heq⟩ <;> rw [heq] <;> exact h

/-- Without input no primitive finds any, and none is put there. -/
theorem interchangeable_noInput : Interchangeable fun s t => s = t ∧ s.input = none where
  dict_eq := by
    rintro s t ⟨rfl, -⟩
    rfl
  push := by
    rintro s t v ⟨rfl, h⟩
    exact ⟨rfl, h⟩
  run := by
    rintro s t p ⟨rfl, h⟩
    have hrun := p.input_run h
    cases hp : p.run s with
    | ok wanted u =>
        rw [hp] at hrun
        exact .ok ⟨rfl, hrun⟩
    | fail f u =>
        rw [hp] at hrun
        exact .fail ⟨rfl, hrun⟩

namespace Machine

/-- No word is running, and no source is being read. -/
structure AtRest (m : Machine) : Prop where
  /-- No word is running. -/
  idle : m.calls = .empty
  /-- No source is being read. -/
  noInput : m.state.input = none

variable {limit : Limit} {m : Machine}

/-- A word that runs while no source is being read leaves none to be read. -/
theorem input_executeWord (hm : m.AtRest) (handle : Int) :
    (m.executeWord limit handle).state.state.input = none :=
  (interchangeable_noInput.executeWord limit handle hm.idle hm.idle
    ⟨rfl, hm.noInput⟩).state.2.2.2

/-- The input from before a source is put back, also after a failure. -/
theorem input_interpret (limit : Limit) (final : Bool) (tokens : List Token) (m : Machine) :
    (m.interpret limit final tokens).state.state.input = m.state.input := by
  unfold interpret
  simp only
  split
  · rfl
  · split <;> rfl

theorem input_abort (m : Machine) : m.abort.state.input = m.state.input :=
  (m.state.withStack []).input_abandon

/-- An answer of the user, whatever comes of it, leaves the input as it was. -/
theorem input_react (limit : Limit) (a : Repl.Answer) (m : Machine) :
    (a.react limit m).machine.state.input = m.state.input := by
  cases a with
  | interrupt => exact input_abort _
  | line text =>
      have hexecute := input_interpret limit false (tokenize text) m
      simp only [Repl.Answer.react, Repl.turn]
      split
      · rfl
      · cases h : m.execute limit false text with
        | ok a m' =>
            rw [execute] at h
            rw [h] at hexecute
            simp only
            split <;> exact hexecute
        | fail f m' =>
            rw [execute] at h
            rw [h] at hexecute
            cases f with
            | problem p trace => exact (input_abort _).trans hexecute
            | _ => exact hexecute

/-- A conversation leaves the input as it was, by induction on the answers. -/
theorem input_converse (limit : Limit) (answers : List Repl.Answer) : ∀ m : Machine,
    (Repl.converse limit false answers m).2.state.state.input = m.state.input := by
  induction answers with
  | nil =>
      intro m
      rfl
  | cons a rest ih =>
      intro m
      have hreact := input_react limit a m
      simp only [Repl.converse, Bool.false_eq_true, if_false]
      cases hturn : a.react limit m with
      | next m' =>
          rw [hturn] at hreact
          exact (ih m').trans hreact
      | bye m' =>
          rw [hturn] at hreact
          exact hreact
      | crash f m' =>
          rw [hturn] at hreact
          exact hreact

end Machine

/-! ### Commands -/

namespace Session

open Machine (AtRest)

variable {limit : Limit} {m m' : Machine}

/-- Whatever the host asks for, no word is running afterwards. -/
theorem idle_perform (limit : Limit) (c : Command) (hm : m.calls = .empty) :
    (perform limit m c).2.Ensures (fun m => m.calls = .empty) (Fault.TraceAtMost limit.room) := by
  cases c with
  | push vs => exact .ok hm
  | values => exact .ok hm
  | summary => exact .map _ (.of_ofText? hm trivial)
  | executeWord handle =>
      exact .map _ ⟨Machine.calls_executeWord hm handle,
        Machine.traceAtMost_executeWord limit handle m⟩
  | source handle =>
      simp only [perform, sourceAt]
      cases m.state.dict.word? handle with
      | none => exact .fail hm trivial
      | some w => exact .map _ (.of_ofText? hm trivial)
  | edit e =>
      refine .mapState ((m.state.dict.perform_ensures e).mono (fun _ _ => hm) ?_)
      intro f hf
      exact hf.traceAtMost _
  | _ => exact (Machine.trace_invariant limit).perform trivial hm

theorem input_runName (hm : m.AtRest) (lookup : Dictionary → String → Option Nat)
    (name : String) : (m.runName limit lookup name).state.state.input = none := by
  unfold Machine.runName
  cases lookup m.state.dict name with
  | none => exact hm.noInput
  | some h => exact Machine.input_executeWord hm h

theorem input_executeTop (hm : m.AtRest) :
    (executeTop limit m).state.state.input = none := by
  have hpop : m.state.popRef.state.input = none := by
    rcases m.state.popRef_ensures.1 with heq | ⟨v, rest, -, heq⟩ <;> rw [heq] <;> exact hm.noInput
  unfold executeTop
  cases hr : m.state.popRef with
  | fail f s =>
      rw [hr] at hpop
      exact hpop
  | ok r s =>
      rw [hr] at hpop
      exact Machine.input_executeWord (m := m.withState s) ⟨hm.idle, hpop⟩ r.handle

/-- No command leaves a source to be read. -/
theorem input_perform (c : Command) (hm : m.AtRest) :
    (perform limit m c).2.state.state.input = none := by
  cases c with
  | execute source final =>
      rw [perform, Outcome.state_map]
      exact (Machine.input_interpret limit final _ m).trans hm.noInput
  | repl answers =>
      rw [perform, Outcome.state_map]
      exact (Machine.input_converse limit answers (m.write Repl.banner)).trans hm.noInput
  | run name =>
      rw [perform, Outcome.state_map]
      exact input_runName hm Dictionary.lookupOutside name
  | executeWord handle =>
      rw [perform, Outcome.state_map]
      exact Machine.input_executeWord hm handle
  | executeTop =>
      rw [perform, Outcome.state_map]
      exact input_executeTop hm
  | abort => exact m.input_abort.trans hm.noInput
  | see name =>
      have hstate : ((m.state.resolve name).mapState m.withState).state = m := by
        rw [Outcome.state_mapState, State.state_resolve]
        rfl
      rw [perform]
      cases h : (m.state.resolve name).mapState m.withState with
      | fail f m' =>
          rw [h] at hstate
          obtain rfl : m' = m := hstate
          exact hm.noInput
      | ok w m' =>
          rw [h] at hstate
          obtain rfl : m' = m := hstate
          rw [Outcome.bind_ok, sourceOf, Outcome.state_map, Outcome.state_ofText?]
          exact hm.noInput
  | source handle =>
      rw [perform, sourceAt]
      cases m.state.dict.word? handle with
      | none => exact hm.noInput
      | some w =>
          simp only [sourceOf, Outcome.state_map, Outcome.state_ofText?]
          exact hm.noInput
  | summary =>
      rw [perform, Outcome.state_map, Outcome.state_ofText?]
      exact hm.noInput
  | pop =>
      rw [perform, Outcome.state_map, onStack, Outcome.state_mapState]
      exact hm.noInput
  | peek =>
      rw [perform, onStack, Outcome.state_map, Outcome.state_mapState]
      exact hm.noInput
  | edit e =>
      rw [perform, Outcome.state_mapState]
      exact hm.noInput
  | push vs => exact hm.noInput
  | values => exact hm.noInput

/-- Whatever the host asks for, the interpreter is at rest afterwards. -/
theorem atRest_perform (hm : m.AtRest) (c : Command) : (perform limit m c).2.state.AtRest :=
  ⟨(idle_perform limit c hm.idle).1, input_perform c hm⟩

/-- Between commands a machine is at rest, by induction on the commands. -/
theorem atRest_after (cs : List Command) : ∀ {m : Machine}, m.AtRest →
    (after limit m cs).AtRest := by
  induction cs with
  | nil => exact fun hm => hm
  | cons c cs ih => exact fun hm => ih (atRest_perform hm c)

/-- At no moment of a command are there more frames than the limit has room for. -/
theorem depth_le_of_during {c : Command} (hm : m.calls = .empty)
    (hd : During limit (.command c) m m') : m'.calls.depth ≤ limit.room := by
  by_cases hc : c.SourceDriven
  · have hdriven : (Activity.command c).SourceDriven := hc
    refine (Machine.idle_invariant limit).during (J := fun m => m.calls.depth ≤ limit.room)
      (fun hm => Machine.depth_le_of_idle limit hm) ?_ ?_ hdriven hd hm
    · intro h m m' _ hm hword
      exact Machine.depth_le_of_duringWord (Machine.depth_le_of_idle limit hm) hword
    · intro r s m m' _ hm hword
      have hm' : (m.withState s).calls.depth ≤ limit.room := Machine.depth_le_of_idle limit hm
      exact Machine.depth_le_of_duringWord hm' hword
  · -- The only other command that takes more than one moment runs the word at a handle.
    cases hd with
    | start => exact Machine.depth_le_of_idle limit hm
    | finish => exact Machine.depth_le_of_idle limit (idle_perform limit c hm).1
    | executeWord hword =>
        exact Machine.depth_le_of_duringWord (Machine.depth_le_of_idle limit hm) hword
    | _ => exact absurd trivial hc

end Session

end ThreadedForth
