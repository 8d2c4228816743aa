import Mathlib
import ThreadedForth.Proofs.Lockstep
import ThreadedForth.Proofs.Nesting
/-!
# ThreadedForth.Proofs.Locality

A word does not see what is on the stack below its operands.

Put more values under the stack (`State.atop`), and a word does the same as before: it ends with the
same result or the same fault, writes the same text, and leaves the values below where they are
(`Outcome.Extends`). A word that lacked a value is excepted, because it may find one now. There are
three primitives of which this is not true: `depth` and `.s` look at the whole stack, and `execute`
calls any word, also one that uses these two.

Every other primitive reaches its operands from the top of the stack, so the values below stay at
the end of a list that is only taken apart at its front. From primitives it goes to code, and to
words by induction on the room for calls. What a word uses is a fact about the dictionary at the
start, which a run may change by finishing the open word; this changes no code.
-/

namespace ThreadedForth

/-- A value was missing. -/
def Fault.Underflow : Fault → Prop
  | problem p _ => p.kind = .stackUnderflow
  | _ => False

/-- With its states carried along by `g`, the second outcome is the first, unless this lacked a
value. -/
def Outcome.Extends {σ τ α : Type} (g : σ → τ) (x : Outcome σ α) (y : Outcome τ α) : Prop :=
  AlikeUnless Fault.Underflow (fun s t => t = g s) x y

namespace Outcome.Extends

variable {σ τ ρ π α β : Type} {g : σ → τ} {x : Outcome σ α} {y : Outcome τ α}

theorem ok {a : α} {s : σ} : Extends g (.ok a s) (.ok a (g s)) := AlikeUnless.ok rfl

theorem fail {f : Fault} {s : σ} : Extends g (.fail f s : Outcome σ α) (.fail f (g s)) :=
  AlikeUnless.fail rfl

/-- An operation that lacks a value is excepted, whatever the other one does. -/
theorem underflow {op : Option String} {s : σ} :
    Extends g (.fail (.raise (.underflow op)) s : Outcome σ α) y :=
  .inl ⟨_, rfl, rfl⟩

theorem of_ofText? {text : Option α} {s : σ} :
    Extends g (Outcome.ofText? text s) (Outcome.ofText? text (g s)) := by
  cases text with
  | some a => exact ok
  | none => exact fail

/-- The values below are carried along from one operation to the next. -/
theorem bind {next : α → σ → Outcome σ β} {next' : α → τ → Outcome τ β} (h : Extends g x y)
    (hnext : ∀ a s, x = .ok a s → Extends g (next a s) (next' a (g s))) :
    Extends g (x.bind next) (y.bind next') := by
  refine AlikeUnless.bind h (fun hst => hst) ?_
  rintro a s _ hx rfl
  exact hnext a s hx

/-- Without an underflow the outcomes are the same. -/
theorem eq_mapState (h : Extends g x y) (hx : ∀ f, x.fault? = some f → ¬ f.Underflow) :
    y = x.mapState g := by
  rcases h with ⟨f, hf, hunderflow⟩ | h
  · exact absurd hunderflow (hx f hf)
  · exact h.eq_mapState fun _ _ hst => hst

theorem map (h : Extends g x y) (k : α → β) : Extends g (x.map k) (y.map k) := by
  rcases h with ⟨f, hf, hunderflow⟩ | h
  · obtain ⟨s, rfl⟩ := exists_eq_fail hf
    exact .inl ⟨f, rfl, hunderflow⟩
  · exact .inr (h.map k)

theorem mapState {g' : ρ → π} {k : σ → ρ} {k' : τ → π} (h : Extends g x y)
    (hg : ∀ s, k' (g s) = g' (k s)) : Extends g' (x.mapState k) (y.mapState k') := by
  rcases h with ⟨f, hf, hunderflow⟩ | h
  · exact .inl ⟨f, by rw [fault?_mapState, hf], hunderflow⟩
  · refine .inr (h.mapState ?_)
    rintro s _ rfl
    exact hg s

/-- Marking a fault with the words it came out of leaves the kind of problem as it was. -/
theorem within (h : Extends g x y) (names : List String) :
    Extends g (x.mapFault (.within names)) (y.mapFault (.within names)) := by
  rcases h with ⟨f, hf, hunderflow⟩ | h
  · obtain ⟨s, rfl⟩ := exists_eq_fail hf
    refine .inl ⟨f.within names, rfl, ?_⟩
    cases f <;> exact hunderflow
  · exact .inr (h.mapFault _)

end Outcome.Extends

open Outcome (Extends)

/-! ### Data words -/

namespace Stack

variable {below : Stack}

/-- The top of a stack that is not empty is the top of the larger one. -/
theorem extends_pop (op : Option String) (s : Stack) :
    Extends (· ++ below) (pop op s) (pop op (s ++ below)) := by
  cases s with
  | nil => exact .underflow
  | cons v s => exact .ok

/-- Taking an integer looks at the top value only, and the larger stack has the same one. -/
theorem extends_popInt (op : Option String) (s : Stack) :
    Extends (· ++ below) (popInt op s) (popInt op (s ++ below)) := by
  cases s with
  | nil => exact .underflow
  | cons v s =>
      cases v with
      | int n => exact .ok
      | ref r => exact .fail
      | bool b => exact .fail
      | text t => exact .fail

theorem extends_binary (op : String) (f : Int → Int → Int) (s : Stack) :
    Extends (· ++ below) (binary op f s) (binary op f (s ++ below)) :=
  (extends_popInt _ s).bind fun _ t _ => (extends_popInt _ t).bind fun _ _ _ => .ok

/-- A division fails because of its divisor, never because of values further down. -/
theorem extends_division (op : String) (f : Int → Int → Int) (s : Stack) :
    Extends (· ++ below) (division op f s) (division op f (s ++ below)) := by
  refine (extends_popInt _ s).bind fun b t _ => (extends_popInt _ t).bind fun a u _ => ?_
  by_cases hb : b = 0
  · rw [if_pos hb, if_pos hb]
    exact .fail
  · rw [if_neg hb, if_neg hb]
    exact .ok

theorem extends_negate (s : Stack) : Extends (· ++ below) (negate s) (negate (s ++ below)) :=
  (extends_popInt _ s).bind fun _ _ _ => .ok

theorem extends_printTop (s : Stack) :
    Extends (· ++ below) (printTop s) (printTop (s ++ below)) :=
  (extends_pop _ s).bind fun _ _ _ => Extends.of_ofText?.map _

theorem extends_printChar (s : Stack) :
    Extends (· ++ below) (printChar s) (printChar (s ++ below)) := by
  refine (extends_popInt _ s).bind fun code t _ => ?_
  cases charOf? code with
  | some c => exact .ok
  | none => exact Extends.of_ofText?.bind fun _ _ _ => .fail

end Stack

open Stack in
/-- A data word does not see the values below, unless it looks at the whole stack. -/
theorem DataWord.extends_run {w : DataWord} (hdepth : w ≠ .depth) (hdotS : w ≠ .dotS)
    {below : Stack} (s : Stack) : Extends (· ++ below) (w.run s) (w.run (s ++ below)) := by
  cases w with
  | dup =>
      match s with
      | [] => exact .underflow
      | a :: s => exact .ok
  | drop =>
      match s with
      | [] => exact .underflow
      | a :: s => exact .ok
  | swap =>
      match s with
      | [] | [_] => exact .underflow
      | b :: a :: s => exact .ok
  | copyOver =>
      match s with
      | [] | [_] => exact .underflow
      | b :: a :: s => exact .ok
  | rot =>
      match s with
      | [] | [_] | [_, _] => exact .underflow
      | c :: b :: a :: s => exact .ok
  | depth => exact absurd rfl hdepth
  | dotS => exact absurd rfl hdotS
  | dot => exact extends_printTop s
  | add => exact extends_binary _ _ s
  | sub => exact extends_binary _ _ s
  | mul => exact extends_binary _ _ s
  | div => exact extends_division _ _ s
  | mod => exact extends_division _ _ s
  | negate => exact extends_negate s
  | cr => exact .ok
  | emit => exact extends_printChar s
  | space => exact .ok

/-! ### System words -/

namespace State

/-- More values below the stack. -/
def atop (below : Stack) (s : State) : State := s.withStack (s.stack ++ below)

variable {below : Stack}

@[simp] theorem stack_atop (s : State) : (s.atop below).stack = s.stack ++ below := rfl
@[simp] theorem dict_atop (s : State) : (s.atop below).dict = s.dict := rfl
@[simp] theorem mode_atop (s : State) : (s.atop below).mode = s.mode := rfl
@[simp] theorem input_atop (s : State) : (s.atop below).input = s.input := rfl

/-- To finish a definition does not read the stack. -/
theorem finish_atop (s : State) : (s.atop below).finish = s.finish.atop below := by
  simp only [finish, dict_atop]
  cases s.dict.activeWord? <;> rfl

theorem extends_readName (op : String) (s : State) :
    Extends (atop below) (s.readName op) ((s.atop below).readName op) := by
  simp only [readName, input_atop]
  cases s.input with
  | none => exact .fail
  | some tokens =>
      cases tokens with
      | nil => exact .fail
      | cons token rest => exact .ok

/-- A look-up does not read the stack. -/
theorem extends_resolve (name : String) (s : State) :
    Extends (atop below) (s.resolve name) ((s.atop below).resolve name) := by
  simp only [resolve, dict_atop]
  cases (s.dict.lookupOutside name).bind (s.dict.entries[·]?) with
  | none => exact .fail
  | some w => exact .ok

end State

/-- A system word does not look at values at all, unless it calls a word. -/
theorem SystemWord.extends_run {w : SystemWord} (hexecute : w ≠ .execute) {below : Stack}
    (s : State) : Extends (State.atop below) (w.run s) (w.run (s.atop below)) := by
  cases w with
  | execute => exact absurd rfl hexecute
  | words => exact .ok
  | colon =>
      refine Extends.map ?_ _
      simp only [State.beginDefinition, State.dict_atop]
      cases s.dict.activeWord? with
      | none => exact .ok
      | some w => exact .fail
  | semicolon =>
      refine Extends.map ?_ _
      simp only [State.endDefinition, State.mode_atop, State.finish_atop]
      cases s.mode with
      | interpret => exact .fail
      | compile => exact .ok
  | tick =>
      refine .map (.bind (s.extends_readName _) fun name t _ => ?_) _
      exact (t.extends_resolve name).bind fun w u _ => .ok
  | see =>
      refine .map (.bind (s.extends_readName _) fun name t _ => ?_) _
      refine (t.extends_resolve name).bind fun w u _ => ?_
      exact Extends.of_ofText?.bind fun text v _ => .ok

/-! ### Words -/

/-- The primitive reaches no value but its own operands. -/
def Primitive.Local (p : Primitive) : Prop :=
  p ≠ .data .depth ∧ p ≠ .data .dotS ∧ p ≠ .system .execute

/-- A primitive that reaches its operands from the top does not see the values below. -/
theorem Primitive.extends_run {p : Primitive} (hp : p.Local) {below : Stack} (s : State) :
    Extends (State.atop below) (p.run s) (p.run (s.atop below)) := by
  obtain ⟨hdepth, hdotS, hexecute⟩ := hp
  cases p with
  | inert name => exact .ok
  | system w => exact SystemWord.extends_run (fun h => hexecute (h ▸ rfl)) s
  | data w =>
      have hrun : Extends (· ++ below) (w.run s.stack) (w.run (s.stack ++ below)) :=
        DataWord.extends_run (fun h => hdepth (h ▸ rfl)) (fun h => hdotS (h ▸ rfl)) s.stack
      simp only [run, DataWord.runOn, State.stack_atop]
      generalize w.run s.stack = x, w.run (s.stack ++ below) = y at hrun ⊢
      rcases hrun with ⟨f, hf, hunderflow⟩ | hrun
      · obtain ⟨stack, rfl⟩ := Outcome.exists_eq_fail hf
        exact .inl ⟨f, rfl, hunderflow⟩
      · cases hrun with
        | ok hstack => rw [hstack]; exact .ok
        | fail hstack => rw [hstack]; exact .fail

section

variable {d : Dictionary} {below : Stack} {call : Int → State → Outcome State Unit}
  (hcall : ∀ h (s : State), (∀ p, d.Uses h p → p.Local) → d.Finishes s.dict →
    Extends (State.atop below) (call h s) (call h (s.atop below)))
include hcall

/-- A cell that uses local primitives only does not see the values below. -/
theorem extends_evalCell {c : Cell} (hc : ∀ p, c.Uses d p → p.Local) {s : State}
    (hs : d.Finishes s.dict) :
    Extends (State.atop below) (evalCell call c s) (evalCell call c (s.atop below)) := by
  cases c with
  | literal v => exact .ok
  | word r => exact hcall r.handle s hc hs
  | primitive p =>
      refine (Primitive.extends_run (hc p rfl) s).bind fun wanted t ht => ?_
      cases wanted with
      | none => exact .ok
      | some r => exact absurd (Primitive.run_eq_ok_some ht).1 (hc p rfl).2.2

/-- Nor does a list of such cells, by induction on it. -/
theorem extends_evalCode (hkeep : ∀ h (s : State), s.dict.Finishes (call h s).state.dict)
    (code : List Cell) (hcode : ∀ c ∈ code, ∀ p, c.Uses d p → p.Local) :
    ∀ {s : State}, d.Finishes s.dict →
      Extends (State.atop below) (evalCode call code s) (evalCode call code (s.atop below)) := by
  induction code with
  | nil => exact fun _ => .ok
  | cons c code ih =>
      intro s hs
      have hfinishes := effectBound_finishes.evalCell hkeep c s
      refine (extends_evalCell hcall (hcode c List.mem_cons_self) hs).bind fun _ t ht => ?_
      rw [ht] at hfinishes
      exact ih (fun b hb => hcode b (List.mem_cons_of_mem c hb)) (hs.trans hfinishes)

end

/-- A word that uses local primitives only does not see the values below. -/
theorem extends_evalCall {d : Dictionary} {below : Stack} (limit : Limit) (free : Nat) :
    ∀ (h : Int) (s : State), (∀ p, d.Uses h p → p.Local) → d.Finishes s.dict →
      Extends (State.atop below) (evalCall limit free h s)
        (evalCall limit free h (s.atop below)) := by
  induction free with
  | zero =>
      intro h s _ _
      simp only [evalCall, State.dict_atop]
      cases s.dict.word? h with
      | none => exact .fail
      | some w => exact .fail
  | succ free ih =>
      intro h s hlocal hs
      simp only [evalCall, State.dict_atop]
      cases hw' : s.dict.word? h with
      | none => exact .fail
      | some w' =>
          obtain ⟨w, hw, hcode⟩ := hs.exists_of_word? hw'
          simp only [hcode]
          refine (extends_evalCode ih (effectBound_finishes.evalCall limit free) w.code ?_ hs).within _
          exact fun c hc p hp => hlocal p (Dictionary.uses_of_mem hw hc hp)

namespace Machine

/-- More values below the stack. -/
def atop (below : Stack) (m : Machine) : Machine := m.withState (m.state.atop below)

/-- With no word running, a word does not see the values below. -/
theorem extends_executeWord {m : Machine} (hidle : m.calls = .empty) {h : Int}
    (hlocal : ∀ p, m.state.dict.Uses h p → p.Local) (limit : Limit) (below : Stack) :
    Extends (atop below) (m.executeWord limit h) ((m.atop below).executeWord limit h) := by
  have hidle' : (m.atop below).calls = .empty := hidle
  rw [executeWord_of_idle hidle, executeWord_of_idle hidle']
  exact (extends_evalCall limit limit.room h m.state hlocal (.refl _)).mapState fun _ => rfl

end Machine

namespace Session

/-- Words touch only the part of the stack that they use. In a session driven by source, let an
entry use none of `depth`, `.s` and `execute`, and run it on a stack `s`. Unless it fails for want of
a value, it does the same on `s` with any values `t` below: it succeeds, or fails with the same
problem out of the same words, and leaves the same state, but with `t` below its stack. -/
theorem values_below_untouched {limit : Limit} {m : Machine} {h : Int} (hm : Reaches limit m)
    (hdepth : ¬ m.state.dict.Uses h (.data .depth)) (hdotS : ¬ m.state.dict.Uses h (.data .dotS))
    (hexecute : ¬ m.state.dict.Uses h (.system .execute)) {s t : Stack} {x y : Outcome Machine Unit}
    (hx : x = (m.withState (m.state.withStack s)).executeWord limit h)
    (hy : y = (m.withState (m.state.withStack (s ++ t))).executeWord limit h)
    (hsupplied : ∀ p trace, x.fault? = some (.problem p trace) → p.kind ≠ .stackUnderflow) :
    y.fault? = x.fault? ∧
      y.state = x.state.withState (x.state.state.withStack (x.state.state.stack ++ t)) := by
  have hidle : (m.withState (m.state.withStack s)).calls = .empty :=
    (Machine.calls_of_reaches hm : m.calls = .empty)
  have hlocal : ∀ p, m.state.dict.Uses h p → p.Local := by
    intro p hp
    refine ⟨?_, ?_, ?_⟩ <;> rintro rfl
    · exact hdepth hp
    · exact hdotS hp
    · exact hexecute hp
  have hextends : Extends (Machine.atop t) x y := by
    rw [hx, hy]
    exact Machine.extends_executeWord hidle hlocal limit t
  have heq : y = x.mapState (Machine.atop t) := by
    refine hextends.eq_mapState fun f hf => ?_
    cases f with
    | problem p trace => exact hsupplied p trace hf
    | _ => exact id
  rw [heq, Outcome.fault?_mapState, Outcome.state_mapState]
  exact ⟨rfl, rfl⟩

/-- A division by zero takes its two operands away, and leaves the truth value below them. -/
theorem values_below_untouched_ratio :
    ∃ (m : Machine) (h : Int) (x y : Outcome Machine Unit), Reaches (.atMost 9) m ∧
      ¬ m.state.dict.Uses h (.data .depth) ∧ ¬ m.state.dict.Uses h (.data .dotS) ∧
      ¬ m.state.dict.Uses h (.system .execute) ∧
      x = (m.withState (m.state.withStack [.int 0, .int 7])).executeWord (.atMost 9) h ∧
      y = (m.withState (m.state.withStack [.int 0, .int 7, .bool true])).executeWord (.atMost 9) h ∧
      (∀ p trace, x.fault? = some (.problem p trace) → p.kind ≠ .stackUnderflow) ∧
      y.fault? = some (.problem (.zeroDivisor "/") ["ratio", "/"]) ∧
      y.state.state.stack = [.bool true] := by
  obtain ⟨m, hm, hratio, hdiv, hfault, hstack⟩ : ∃ m : Machine, Reaches (.atMost 9) m ∧
      m.state.dict.word? 23 = some ⟨"ratio", 23, false, false, true, [.word ⟨17, "/"⟩]⟩ ∧
      m.state.dict.word? 17 = some ⟨"/", 17, false, false, true, [.primitive (.data .div)]⟩ ∧
      ((m.withState (m.state.withStack [.int 0, .int 7])).executeWord (.atMost 9) 23).fault? =
        some (.problem (.zeroDivisor "/") ["ratio", "/"]) ∧
      ((m.withState (m.state.withStack [.int 0, .int 7])).executeWord (.atMost 9) 23
        ).state.state.stack = [] :=
    ⟨_, .perform (.execute ": ratio / ;" true) trivial .fresh, by cbv, by cbv, by cbv, by cbv⟩
  have huses : ∀ p, m.state.dict.Uses 23 p → p = .data .div := by
    intro p hp
    simpa [Dictionary.uses_iff hratio, Dictionary.uses_iff hdiv, Cell.Uses, eq_comm] using hp
  have hdepth : ¬ m.state.dict.Uses 23 (.data .depth) := fun h => by simpa using huses _ h
  have hdotS : ¬ m.state.dict.Uses 23 (.data .dotS) := fun h => by simpa using huses _ h
  have hexecute : ¬ m.state.dict.Uses 23 (.system .execute) := fun h => by simpa using huses _ h
  have hsupplied : ∀ p trace,
      ((m.withState (m.state.withStack [.int 0, .int 7])).executeWord (.atMost 9) 23).fault? =
        some (.problem p trace) → p.kind ≠ .stackUnderflow := by
    intro p trace hf
    obtain ⟨rfl, -⟩ : .zeroDivisor "/" = p ∧ ["ratio", "/"] = trace := by
      simpa [hfault] using hf
    decide
  obtain ⟨hsame, hstate⟩ := values_below_untouched hm hdepth hdotS hexecute (t := [.bool true])
    rfl rfl hsupplied
  refine ⟨m, 23, _, _, hm, hdepth, hdotS, hexecute, rfl, rfl, hsupplied, hsame.trans hfault, ?_⟩
  exact (congrArg (fun m => m.state.stack) hstate).trans
    (congrArg (· ++ [Value.bool true]) hstack)

end Session

end ThreadedForth
