import ThreadedForth.Proofs.Dictionary
import ThreadedForth.Proofs.Evaluation
import ThreadedForth.Proofs.Moments
/-!
# ThreadedForth.Proofs.Soundness

The invariant of sessions driven by source, at every moment of every command.

A state is *sound* (`State.Sound`) if its dictionary is coherent with its mode and every
reference on its stack denotes an entry that is offered. A machine is sound (`Machine.Sound`) if,
beyond that, every word being run is offered, and what is left of its code is the end of the
entry's code. It is sound with regard to an earlier dictionary, which says in addition that
nothing offered there was touched since.

Soundness has to be shown of the steps of the machine, because it is also about the moments
between two cells, and of the acts between words. `sound_invariant` puts the two together; with
it come the faults that are possible at all (`Fault.Foreseen`): no index ever points at nothing,
and no finished word is ever asked to take another cell.
-/

namespace ThreadedForth

/-- A fault that a session driven by source can meet under a limit. -/
def Fault.Foreseen (limit : Limit) : Fault → Prop
  | problem p _ => ∀ name, p ≠ .alreadyFinished name
  | digitLimit => True
  | blankLimit => limit = .blank
  | badIndex _ => False

namespace Fault

variable {limit : Limit} {f : Fault}

/-- A plain fault can be met under every limit. -/
theorem Plain.foreseen (h : f.Plain) : f.Foreseen limit := by
  cases f with
  | problem p trace => exact h.2.2
  | digitLimit => trivial
  | badIndex why => exact absurd h id
  | blankLimit => exact absurd h id

/-- Whether a fault is foreseen does not depend on the trace it carries. -/
theorem Foreseen.traced (h : f.Foreseen limit) (names : List String) :
    (f.traced names).Foreseen limit := by
  cases f with
  | problem p trace => cases trace <;> exact h
  | _ => exact h

/-- The refusal of a limit is foreseen under that limit, whichever word is refused. -/
theorem foreseen_refusal (limit : Limit) (name : String) :
    (limit.refusal name).Foreseen limit := by
  cases limit with
  | atMost n =>
      intro other h
      have hkind : Problem.Kind.stackOverflow = .modeError := congrArg Problem.kind h
      cases hkind
  | blank => exact rfl

end Fault

/-! ### States -/

namespace State

@[simp] theorem dict_finish (s : State) : s.finish.dict = s.dict.finish := by
  unfold finish
  split <;> rfl

@[simp] theorem stack_finish (s : State) : s.finish.stack = s.stack := by
  unfold finish
  split <;> rfl

@[simp] theorem input_finish (s : State) : s.finish.input = s.input := by
  unfold finish
  split <;> rfl

@[simp] theorem dict_abandon (s : State) : s.abandon.dict = s.dict.abandon := by
  unfold abandon
  split <;> rfl

@[simp] theorem stack_abandon (s : State) : s.abandon.stack = s.stack := by
  unfold abandon
  split <;> rfl

@[simp] theorem input_abandon (s : State) : s.abandon.input = s.input := by
  unfold abandon
  split <;> rfl

/-- The dictionary is in order, and references on the stack are honest. -/
structure Sound (s : State) : Prop where
  /-- The dictionary is in order. -/
  coherent : s.dict.Coherent s.mode
  /-- References on the stack are honest. -/
  denotes : ∀ r, Value.ref r ∈ s.stack → s.dict.Denotes r

/-- `t` is sound, and still offers what `s` did. -/
def Follows (s t : State) : Prop := t.Sound ∧ s.dict.Keeps t.dict

variable {s t u : State}

theorem Follows.trans (h₁ : s.Follows t) (h₂ : t.Follows u) : s.Follows u :=
  ⟨h₂.1, h₁.2.trans h₂.2⟩

namespace Sound

theorem refl (h : s.Sound) : s.Follows s := ⟨h, .refl _⟩

/-- Soundness after the dictionary or the mode changed. -/
theorem of_keeps (h : s.Sound) (hcoherent : t.dict.Coherent t.mode) (hkeep : s.dict.Keeps t.dict)
    (hstack : t.stack = s.stack) : s.Follows t :=
  ⟨⟨hcoherent, fun r hr => (h.denotes r (hstack ▸ hr)).mono hkeep⟩, hkeep⟩

/-- Soundness after only the stack changed, and got no new references. -/
theorem withStack (h : s.Sound) {stack : Stack} (hstack : Stack.RefsFrom s.stack stack) :
    s.Follows (s.withStack stack) :=
  ⟨⟨h.coherent, fun r hr => h.denotes r (hstack r hr)⟩, .refl _⟩

theorem write (h : s.Sound) (text : String) : s.Follows (s.write text) :=
  ⟨⟨h.coherent, h.denotes⟩, .refl _⟩

theorem record (h : s.Sound) (e : Event) : s.Follows (s.record e) :=
  ⟨⟨h.coherent, h.denotes⟩, .refl _⟩

theorem withInput (h : s.Sound) (input : Option (List Token)) : s.Follows (s.withInput input) :=
  ⟨⟨h.coherent, h.denotes⟩, .refl _⟩

/-- A reference to an offered word may be pushed. -/
theorem push_ref (h : s.Sound) {k : Nat} {w : Word} (hw : s.dict.Offers k w) :
    s.Follows (s.push (.ref w.ref)) := by
  refine ⟨⟨h.coherent, fun r hr => ?_⟩, .refl _⟩
  rcases List.mem_cons.1 hr with hr | hr
  · cases hr
    exact h.coherent.denotes_ref hw
  · exact h.denotes r hr

/-- Closing the open word, if there is one, keeps a sound state sound. -/
theorem finish (h : s.Sound) : s.Follows s.finish := by
  refine h.of_keeps ?_ ?_ s.stack_finish
  · rw [dict_finish, mode_finish]
    exact h.coherent.finish s.mode
  · rw [dict_finish]
    exact h.coherent.keeps_finish

/-! ### Primitives -/

/-- After `:` a state is sound, whether or not another word was open. -/
theorem beginDefinition (h : s.Sound) : s.Follows s.beginDefinition.state := by
  unfold State.beginDefinition
  split
  · exact h.refl
  next hnone =>
    -- An open word would have been found in the dictionary, so there is none.
    have hactive : s.dict.active = none := by
      cases hk : s.dict.active with
      | none => rfl
      | some k =>
          obtain ⟨-, -, w, hw, -⟩ := h.coherent.of_active hk
          simp [Dictionary.activeWord?, hk, hw] at hnone
    exact h.of_keeps (h.coherent.of_active_eq_none hactive .compile) (.refl _) rfl

/-- After `;` a state is sound: the open word is closed, or there was none and nothing changed. -/
theorem endDefinition (h : s.Sound) : s.Follows s.endDefinition.state := by
  unfold State.endDefinition
  split
  · exact h.refl
  · refine h.of_keeps ?_ ?_ s.stack_finish
    · rw [Outcome.state_ok, dict_finish]
      exact h.coherent.finish .interpret
    · rw [Outcome.state_ok, dict_finish]
      exact h.coherent.keeps_finish

theorem readName (h : s.Sound) (op : String) :
    (s.readName op).Ensures s.Follows fun _ => True := by
  unfold State.readName
  split
  · exact .ok (h.withInput _)
  · exact .fail h.refl trivial

/-- What a name resolves to is offered. -/
theorem offers_of_resolve (h : s.Sound) {name : String} {w : Word}
    (hr : s.resolve name = .ok w t) : t = s ∧ ∃ k, s.dict.Offers k w := by
  unfold State.resolve at hr
  split at hr
  next w' hw' =>
    cases hr
    obtain ⟨k, hl, hk⟩ := Option.bind_eq_some_iff.1 hw'
    obtain ⟨v, hv, -⟩ := h.coherent.offers_of_lookupOutside hl
    obtain rfl : v = w := Option.some.inj (hv.1.symm.trans hk)
    exact ⟨rfl, k, hv⟩
  next => simp at hr

theorem resolve (h : s.Sound) (name : String) :
    (s.resolve name).Ensures s.Follows fun _ => True := by
  refine ⟨?_, fun _ _ => trivial⟩
  rw [s.state_resolve name]
  exact h.refl

/-- What `'` pushes is a reference to an offered word. -/
theorem tick (h : s.Sound) : s.tick.Ensures s.Follows fun _ => True := by
  refine .bind (h.readName _) fun name t _ ht => ?_
  refine .mono (.bind (ht.1.resolve name) fun w u hr _ => ?_) (fun _ => ht.trans) fun _ hf => hf
  obtain ⟨rfl, k, hw⟩ := ht.1.offers_of_resolve hr
  exact .ok (ht.1.push_ref hw)

theorem see (h : s.Sound) : s.see.Ensures s.Follows fun _ => True := by
  refine .bind (h.readName _) fun name t _ ht => ?_
  refine .mono (.bind (ht.1.resolve name) fun w u _ hu => ?_) (fun _ => ht.trans) fun _ hf => hf
  exact .bind (.of_ofText? hu trivial) fun text v _ hv => .ok (hv.trans (hv.1.write _))

/-- Taking a reference from the stack keeps a state sound, also if something else was there. -/
theorem popRef (h : s.Sound) : s.Follows s.popRef.state := by
  rcases s.popRef_ensures.1 with heq | ⟨v, rest, hs, heq⟩
  · rw [heq]
    exact h.refl
  · rw [heq]
    exact h.withStack (hs ▸ .tail v rest)

/-- A primitive leaves a sound state sound, and touches nothing that was offered. -/
theorem run (h : s.Sound) (p : Primitive) : s.Follows (p.run s).state := by
  cases p with
  | data w =>
      obtain ⟨stack, text, hstack, heq⟩ := (w.runOn_ensures s).1
      have hnext := h.withStack hstack
      rw [Primitive.run, heq]
      exact hnext.trans (hnext.1.write text)
  | inert name => exact h.refl
  | system w =>
      cases w with
      | colon => simpa [Primitive.run, SystemWord.run] using h.beginDefinition
      | semicolon => simpa [Primitive.run, SystemWord.run] using h.endDefinition
      | tick => simpa [Primitive.run, SystemWord.run] using h.tick.1
      | execute => simpa [Primitive.run, SystemWord.run] using h.popRef
      | words => exact h.write _
      | see => simpa [Primitive.run, SystemWord.run] using h.see.1

/-! ### Definitions -/

/-- An entry may be opened in COMPILE mode while no other is open. -/
theorem define (h : s.Sound) (hmode : s.mode = .compile) (hactive : s.dict.active = none)
    (name : String) : s.Follows (s.define name) := by
  refine h.of_keeps ?_ (Dictionary.keeps_append _ _ _) rfl
  have hdefine : (s.dict.define name).Coherent .compile := h.coherent.define hactive name
  rwa [← hmode] at hdefine

theorem markImmediate (h : s.Sound) {k : Nat} (hk : s.dict.active = some k) :
    s.Follows (s.withDict (s.dict.modify k Word.markImmediate)) :=
  h.of_keeps (h.coherent.markImmediate hk) (h.coherent.keeps_modify hk) rfl

/-- The open word takes what a token compiles. -/
theorem extend (h : s.Sound) {k : Nat} (hk : s.dict.active = some k) {c : Cell}
    (hc : s.dict.Compiles c) : s.Follows (s.withDict (s.dict.modify k (·.push c))) :=
  h.of_keeps (h.coherent.push hk (h.coherent.admits_of_compiles hk hc))
    (h.coherent.keeps_modify hk) rfl

/-- Giving up the open word with an empty stack leads to a sound state in INTERPRET mode. -/
theorem abandon (h : s.Sound) : s.Follows { (s.withStack []).abandon with mode := .interpret } := by
  refine ⟨⟨?_, ?_⟩, ?_⟩
  · rw [dict_abandon]
    exact h.coherent.abandon .interpret
  · rw [stack_abandon]
    exact fun r hr => absurd hr List.not_mem_nil
  · rw [dict_abandon]
    exact h.coherent.keeps_abandon

end Sound

end State

/-! ### Machines -/

/-- The frame runs an offered word, and the cells it has left are the last ones of the word. -/
def Dictionary.Runs (d : Dictionary) (f : Frame) : Prop :=
  ∃ w, d.Offers f.handle w ∧ f.name = w.name ∧ f.rest <:+ w.code

/-- A frame that runs a word goes on running it while offered words stay untouched. -/
theorem Dictionary.Runs.mono {d d' : Dictionary} {f : Frame} (h : d.Runs f) (hkeep : d.Keeps d') :
    d'.Runs f := by
  obtain ⟨w, hw, hrest⟩ := h
  exact ⟨w, hkeep hw, hrest⟩

namespace Machine

/-- The state is sound, what the dictionary `d` offered is still there, and only offered words
are running. -/
structure Sound (d : Dictionary) (m : Machine) : Prop where
  /-- The state is sound. -/
  state : m.state.Sound
  /-- What `d` offered is still there. -/
  keeps : d.Keeps m.state.dict
  /-- Only offered words are running. -/
  frames : ∀ f ∈ m.calls.frames, m.state.dict.Runs f

namespace Sound

variable {limit : Limit} {d : Dictionary} {m m' : Machine} {k : Nat} {w : Word}

/-- A machine is sound in a state that follows its own. -/
theorem withState (h : m.Sound d) {s : State} (hs : m.state.Follows s) : (m.withState s).Sound d :=
  ⟨hs.1, h.keeps.trans hs.2, fun f hf => (h.frames f hf).mono hs.2⟩

/-! ### Steps -/

/-- An offered word can be called, unless the limit refuses. -/
theorem call (h : m.Sound d) (hw : m.state.dict.Offers k w) :
    (m.call limit k).Ensures (Sound d) (Fault.Foreseen limit) := by
  unfold Machine.call
  rw [Dictionary.word?, itemAt?_natCast, hw.1]
  simp only [enter, Limit.refusal?_eq]
  by_cases hroom : m.calls.depth < limit.room
  · rw [if_pos hroom]
    refine .ok ⟨h.state, h.keeps, fun f hf => ?_⟩
    rcases List.mem_cons.1 hf with rfl | hf
    · refine ⟨w, ?_, rfl, List.suffix_refl _⟩
      rw [Frame.start, h.state.coherent.handle_eq hw.1]
      exact hw
    · exact h.frames f hf
  · rw [if_neg hroom]
    exact .fail h (Fault.foreseen_refusal limit w.name)

/-- A denoted word can be called, unless the limit refuses. -/
theorem call_ref (h : m.Sound d) {r : WordRef} (hr : m.state.dict.Denotes r) :
    (m.call limit r.handle).Ensures (Sound d) (Fault.Foreseen limit) := by
  obtain ⟨k, w, hw, rfl⟩ := hr
  exact h.call hw

/-- A reference that was taken from the stack denotes a word. -/
theorem denotes_of_popRef (h : m.Sound d) {r : WordRef} {s : State}
    (hr : m.state.popRef = .ok r s) : s.dict.Denotes r := by
  obtain ⟨rest, hs, rfl⟩ := State.popRef_eq_ok hr
  exact h.state.denotes r (by rw [hs]; exact List.mem_cons_self)

/-- A primitive keeps a machine sound, also if it calls the word it found on the stack. -/
theorem runPrimitive (h : m.Sound d) (p : Primitive) :
    (m.runPrimitive limit p).Ensures (Sound d) (Fault.Foreseen limit) := by
  have hrun := h.state.run p
  have hplain := p.plain_run m.state
  unfold Machine.runPrimitive
  cases hp : p.run m.state with
  | fail f s =>
      rw [hp] at hrun hplain
      exact .fail (h.withState hrun) (hplain.2 f rfl).foreseen
  | ok wanted s =>
      rw [hp] at hrun
      have hnext : (m.withState s).Sound d := h.withState hrun
      cases wanted with
      | none => exact .ok hnext
      | some r => exact hnext.call_ref (h.denotes_of_popRef (Primitive.run_eq_ok_some hp).2)

/-- A cell keeps a machine sound wherever the dictionary admits it. -/
theorem runCell (h : m.Sound d) {c : Cell} (hc : m.state.dict.Admits k c) :
    (m.runCell limit c).Ensures (Sound d) (Fault.Foreseen limit) := by
  cases c with
  | primitive p => exact h.runPrimitive p
  | word r =>
      obtain ⟨i, w, hw, rfl, -⟩ := hc
      exact h.call hw
  | literal v =>
      obtain ⟨n, rfl⟩ := hc
      exact .ok (h.withState (h.state.withStack (.push_int (.refl _) n)))

/-- A step keeps a machine sound: the cell it runs is one of an offered word. -/
theorem step (h : m.Sound d) : (m.step limit).Ensures (Sound d) (Fault.Foreseen limit) := by
  unfold Machine.step
  split
  · exact .ok h
  next f fs hf =>
    have hbelow : ∀ g ∈ m.calls.pop.frames, m.state.dict.Runs g := fun g hg =>
      h.frames g (List.mem_of_mem_tail hg)
    obtain ⟨w, hw, hname, hsuffix⟩ := h.frames f (by rw [hf]; exact List.mem_cons_self)
    split
    · exact .ok ⟨h.state, h.keeps, hbelow⟩
    next c rest hrest =>
      rw [hrest] at hsuffix
      have hrun : m.state.dict.Runs { f with rest } :=
        ⟨w, hw, hname, (List.suffix_cons c rest).trans hsuffix⟩
      -- The frame goes on with what is left of the same word.
      have hnext : Sound d { m with calls := m.calls.pop.push { f with rest } } := by
        refine ⟨h.state, h.keeps, fun g hg => ?_⟩
        rcases List.mem_cons.1 hg with rfl | hg
        · exact hrun
        · exact hbelow g hg
      -- The cell stands in the code of an entry, and code is admitted where it stands.
      exact hnext.runCell (h.state.coherent.admits hw.1 c (hsuffix.subset List.mem_cons_self))

/-! ### Runs -/

/-- A run keeps a machine sound, by induction on its steps. -/
theorem run (h : m.Sound d) (base : Nat) :
    (m.run limit base).Ensures (Sound d) (Fault.Foreseen limit) := by
  fun_induction Machine.run limit base m with
  | case1 m _ m₁ hstep ih =>
      have hnext : (m.step limit).Ensures (Sound d) (Fault.Foreseen limit) := h.step
      rw [hstep] at hnext
      exact ih hnext.1
  | case2 m _ f m₁ hstep =>
      have hnext : (m.step limit).Ensures (Sound d) (Fault.Foreseen limit) := h.step
      rwa [hstep] at hnext
  | case3 m _ => exact .ok h

theorem unwind (h : m.Sound d) (base : Nat) : (m.unwind base).Sound d :=
  ⟨h.state, h.keeps, fun f hf => h.frames f (List.mem_of_mem_drop hf)⟩

/-- An offered word runs soundly, and fails with a foreseen fault if it fails. -/
theorem executeWord (h : m.Sound d) (hw : m.state.dict.Offers k w) :
    (m.executeWord limit k).Ensures (Sound d) (Fault.Foreseen limit) := by
  have hcall : (m.call limit k).Ensures (Sound d) (Fault.Foreseen limit) := h.call hw
  unfold Machine.executeWord
  cases hc : m.call limit k with
  | fail f m₁ => rwa [hc] at hcall
  | ok a m₁ =>
      rw [hc] at hcall
      have hrun : (m₁.run limit m.calls.depth).Ensures (Sound d) (Fault.Foreseen limit) :=
        run hcall.1 m.calls.depth
      simp only
      cases hr : m₁.run limit m.calls.depth with
      | ok a m₂ =>
          rw [hr] at hrun
          exact .ok (hrun.1.unwind _)
      | fail f m₂ =>
          rw [hr] at hrun
          exact .fail (hrun.1.unwind _) ((hrun.2 f rfl).traced _)

theorem executeRef (h : m.Sound d) {r : WordRef} (hr : m.state.dict.Denotes r) :
    (m.executeWord limit r.handle).Ensures (Sound d) (Fault.Foreseen limit) := by
  obtain ⟨k, w, hw, rfl⟩ := hr
  exact h.executeWord hw

/-- A machine is sound at every moment of a run. -/
theorem of_duringRun {base : Nat} (hd : DuringRun limit base m m') (h : m.Sound d) :
    m'.Sound d := by
  induction hd with
  | here m => exact h
  | @step m m₁ m' _ hstep _ ih =>
      have hnext : (m.step limit).Ensures (Sound d) (Fault.Foreseen limit) := h.step
      rw [hstep] at hnext
      exact ih hnext.1
  | @failed m m' f _ hstep =>
      have hnext : (m.step limit).Ensures (Sound d) (Fault.Foreseen limit) := h.step
      rw [hstep] at hnext
      exact hnext.1

/-- A machine is sound at every moment of the execution of a denoted word. -/
theorem of_duringWord {r : WordRef} (hr : m.state.dict.Denotes r)
    (hd : DuringWord limit r.handle m m') (h : m.Sound d) : m'.Sound d := by
  cases hd with
  | before => exact h
  | @within m₁ m' hcall hrun =>
      have hnext : (m.call limit r.handle).Ensures (Sound d) (Fault.Foreseen limit) :=
        h.call_ref hr
      rw [hcall] at hnext
      exact of_duringRun hrun hnext.1
  | after => exact (h.executeRef hr).1

/-! ### Acts -/

/-- Executing the reference on top of the stack keeps a machine sound: the reference was honest. -/
theorem executeTop (h : m.Sound d) :
    (Session.executeTop limit m).Ensures (Sound d) (Fault.Foreseen limit) := by
  have hpop := h.state.popRef
  have hplain := m.state.popRef_ensures
  unfold Session.executeTop
  cases hr : m.state.popRef with
  | fail f s =>
      rw [hr] at hpop hplain
      exact .fail (h.withState hpop) (hplain.2 f rfl).foreseen
  | ok r s =>
      rw [hr] at hpop
      have hnext : (m.withState s).Sound d := h.withState hpop
      exact hnext.executeRef (h.denotes_of_popRef hr)

theorem pop (h : m.Sound d) :
    ((Session.onStack m (Stack.pop (some "pop"))).map fun _ => ()).Ensures (Sound d)
      (Fault.Foreseen limit) := by
  have hpop := Stack.tame_pop (some "pop") m.state.stack
  refine .map _ (.mapState (hpop.mono (fun stack hstack => ?_) fun f hf => hf.foreseen))
  exact h.withState (h.state.withStack hstack)

theorem push (h : m.Sound d) {vs : List Value} (hvs : ∀ v ∈ vs, ∀ r, v ≠ .ref r) :
    (m.withState (m.state.withStack (vs.reverse ++ m.state.stack))).Sound d := by
  refine h.withState (h.state.withStack fun r hr => ?_)
  rcases List.mem_append.1 hr with hr | hr
  · exact absurd rfl (hvs _ (List.mem_reverse.1 hr) r)
  · exact hr

/-- Opening an entry, with the marker if it comes next in the input, keeps a machine sound. -/
theorem startDefinition (h : m.Sound d) (hmode : m.state.mode = .compile)
    (hactive : m.state.dict.active = none) (t : Token) : (m.startDefinition t).Sound d := by
  have hdefine := h.state.define hmode hactive t.text
  unfold Machine.startDefinition
  simp only
  split
  next next rest hinput =>
    split
    · have hmark := hdefine.1.markImmediate (k := m.state.dict.size) rfl
      exact h.withState (hdefine.trans (hmark.trans (hmark.1.withInput (some rest))))
    · exact h.withState hdefine
  · exact h.withState hdefine

/-- Compiling a cell never finds a finished word where the open one should be. -/
theorem extend (h : m.Sound d) (hk : m.state.dict.active = some k) {c : Cell}
    (hc : m.state.dict.Compiles c) : (m.extend k c).Ensures (Sound d) (Fault.Foreseen limit) := by
  unfold Machine.extend
  rw [h.state.coherent.extend_eq_ok hk]
  exact .ok (h.withState (h.state.extend hk hc))

theorem endDefinition (h : m.Sound d) :
    (m.state.endDefinition.mapState m.withState).Ensures (Sound d) (Fault.Foreseen limit) := by
  refine .mapState ⟨h.withState h.state.endDefinition, fun f hf => ?_⟩
  have hplain : f.Plain := m.state.endDefinition_ensures.2 f hf
  exact hplain.foreseen

theorem abort (h : m.Sound d) : m.abort.Sound d :=
  ⟨h.state.abandon.1, h.keeps.trans h.state.abandon.2,
    fun _ hf => absurd hf List.not_mem_nil⟩

end Sound

/-- The machine a session starts from is sound. -/
theorem sound_initial : initial.Sound .initial :=
  ⟨⟨Dictionary.coherent_initial, fun _ hr => absurd hr List.not_mem_nil⟩, .refl _,
    fun _ hf => absurd hf List.not_mem_nil⟩

/-- No act of a session breaks soundness. -/
theorem sound_invariant (limit : Limit) (d : Dictionary) :
    Invariant limit (Sound d) (Fault.Foreseen limit) where
  act := by
    intro a m ha h
    cases a with
    | word k =>
        obtain ⟨w, hw⟩ := h.state.coherent.offers_of_allowed ha
        exact h.executeWord hw
    | top => exact h.executeTop
    | pop => exact h.pop
    | push vs => exact .ok (h.push ha)
    | feed input => exact .ok (h.withState (h.state.withInput input))
    | write text => exact .ok (h.withState (h.state.write text))
    | record e => exact .ok (h.withState (h.state.record e))
    | finish => exact .ok (h.withState h.state.finish)
    | define t => exact .ok (h.startDefinition ha.1 ha.2 t)
    | extend k c => exact h.extend ha.2.1 ha.2.2
    | endDefinition => exact h.endDefinition
    | abort => exact .ok h.abort
  plain := fun hf => hf.foreseen

/-- Every machine between two commands is sound. -/
theorem Sound.of_reaches {limit : Limit} {m : Machine} (h : Session.Reaches limit m) :
    m.Sound .initial :=
  (sound_invariant limit .initial).of_reaches sound_initial h

/-- Every machine within a command is sound. -/
theorem Sound.of_during {limit : Limit} {d : Dictionary} {a : Session.Activity} {m m' : Machine}
    (ha : a.SourceDriven) (hd : Session.During limit a m m') (h : m.Sound d) : m'.Sound d := by
  refine (sound_invariant limit d).during (fun hm => hm) ?_ ?_ ha hd h
  · intro k m m' hk hm hword
    obtain ⟨w, hw⟩ := hm.state.coherent.offers_of_allowed hk
    have hr := hm.state.coherent.denotes_ref hw
    -- The handle of a look-up is that of a reference to the word it found.
    rw [← hm.state.coherent.handle_eq hw.1] at hword
    exact of_duringWord hr hword hm
  · intro r s m m' hr hm hword
    have hpop := hm.state.popRef
    rw [hr] at hpop
    exact of_duringWord (hm.denotes_of_popRef hr) hword (hm.withState hpop)

/-! ### Between tokens no word is running -/

/-- Executing a word with no word running leaves no word running, also if it fails. -/
theorem calls_executeWord {limit : Limit} {m : Machine} (hm : m.calls = .empty) (handle : Int) :
    (m.executeWord limit handle).state.calls = .empty := by
  rw [executeWord_of_idle hm]
  simpa using hm

/-- No act leaves a word running. -/
theorem calls_act {limit : Limit} (a : Act) {m : Machine} (hm : m.calls = .empty) :
    (a.perform limit m).state.calls = .empty := by
  cases a with
  | word h => exact calls_executeWord hm h
  | top =>
      unfold Act.perform Session.executeTop
      cases m.state.popRef with
      | fail f s => exact hm
      | ok r s =>
          have hm' : (m.withState s).calls = .empty := hm
          exact calls_executeWord hm' r.handle
  | pop => simpa [Act.perform, Session.onStack] using hm
  | define t =>
      unfold Act.perform startDefinition
      simp only [Outcome.state_ok]
      split
      · split <;> exact hm
      · exact hm
  | extend k c => simpa [Act.perform, Machine.extend] using hm
  | endDefinition => simpa [Act.perform] using hm
  | abort => rfl
  | _ => exact hm

/-- No act of a session leaves a word running, so none runs between two acts. -/
theorem idle_invariant (limit : Limit) :
    Invariant limit (fun m => m.calls = .empty) (fun _ => True) where
  act := fun a _ _ hm => ⟨calls_act a hm, fun _ _ => trivial⟩
  plain := fun _ => trivial

/-- Between two commands no word is running. -/
theorem calls_of_reaches {limit : Limit} {m : Machine} (h : Session.Reaches limit m) :
    m.calls = .empty :=
  (idle_invariant limit).of_reaches rfl h

end Machine

end ThreadedForth
